import Parley.Proofs.Exchange.Sends
import Parley.Proofs.Server.Stateless

/-!
# One exchange with an echo

A request passes two limits on its way out, the client's when its frame is written and the server's
when its header is read, and the same two on its way back, since an echo sends back what it was
sent. So it comes back if it is within both (`Exchange.send_of_fits`), and then nothing is left on
its way. Above either limit it fails, before it is written or because its connection is dropped, and
the handler never sees it (`Exchange.send_of_exceeds`).
-/

namespace Parley.Exchange

open Parley.Frame (Outcome)

variable {σ : Type} {max serverMax : UInt32} {handler : Handler σ} {request : Message}

/-- **A request within both limits comes back**, and nothing is on its way afterwards. -/
theorem send_of_fits (hc : handler.Computes .response)
    (hdecode : Message.decode request.encode = .ok request)
    (hfits : request.encode.length ≤ max.toNat)
    (hserver : request.encode.length ≤ serverMax.toNat) (state : σ) :
    (ready max serverMax state).send handler request =
      (.ok request, ready max serverMax (handler state request).2) := by
  have hj : handler.judge serverMax state (.ok (some request)) =
      (some request, (handler state request).2) := by
    have hreply : (handler state request).1 = .response request := hc state request
    simp only [Handler.judge, hreply, Reply.within?, if_pos hserver]
  exact comes_of_response hfits (Receiver.read_frame hdecode hserver) hj
    (Receiver.read_frame hdecode hfits) fun _ _ => rfl

/-- **A request above one of the limits fails**, and the handler does not see it. -/
theorem send_of_exceeds (handler : Handler σ)
    (h : max.toNat < request.encode.length ∨ serverMax.toNat < request.encode.length) (state : σ) :
    ∃ error next, (ready max serverMax state).send handler request = (.error error, next) ∧
      next.state = state := by
  by_cases hfits : request.encode.length ≤ max.toNat
  · -- The client writes the request, and finds its connection closed.
    have hserver : serverMax.toNat < request.encode.length := h.resolve_left (Nat.not_lt.mpr hfits)
    have hsize : request.encode.length < UInt32.size := Nat.lt_of_le_of_lt hfits max.toNat_lt
    have hread := Receiver.read_of_cut (.tooLarge hsize hserver request.encode)
      Outcome.not_isEnd_tooLarge none
    have hfails : (ready max serverMax state).Fails handler request .closed state :=
      fails_of_end hfits hread rfl
    obtain ⟨next, hsend, -, hstate⟩ := hfails
    exact ⟨_, next, hsend, hstate⟩
  · have hfails : (ready max serverMax state).Fails handler request _ state :=
      fails_of_lt (Nat.lt_of_not_le hfits) state
    obtain ⟨next, hsend, -, hstate⟩ := hfails
    exact ⟨_, next, hsend, hstate⟩

theorem isOk_disconnect (exchange : Exchange σ) : exchange.disconnect.1.isOk = true :=
  exchange.client.isOk_disconnect

end Parley.Exchange
