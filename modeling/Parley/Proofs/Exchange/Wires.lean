import Parley.Proofs.Client.Caller
import Parley.Proofs.Exchange.Turns

/-!
# The wires throughout

Whatever happens on a connection, its wires stay as wide as they are, and an end that has shut its
socket down has done so in both directions (`Dialogue.Wired.turn`).
-/

namespace Parley

open Transport (Intake)

variable {σ : Type}

/-! ## Shutting down -/

namespace Transport.Intake

variable {intake intake' : Intake} {arrival : Except Failure (List UInt8)}

theorem shut_arrive (h : intake.arrive arrival = some intake') : intake'.shut = intake.shut := by
  cases arrives_of_arrive h <;> rfl

theorem shut_pumpTurn (h : intake.pumpTurn = some intake') : intake'.shut = intake.shut := by
  cases turn_of_pumpTurn h <;> rfl

end Transport.Intake

namespace Caller

variable {caller caller' : Caller} {request : Message} {bytes : List UInt8}

theorem shut_conclude (caller : Caller) (request : Message) (report : Report) :
    (caller.conclude request report).intake.shut = caller.intake.shut := by
  cases hr : Client.responseOf report with
  | ok response => rw [conclude_of_ok hr]
  | error error => rw [conclude_of_error hr]; rfl

theorem shut_ask (h : caller.ask request = some caller') :
    caller'.intake.shut = caller.intake.shut := by
  unfold Caller.ask at h
  split at h
  · simp only [Option.some.injEq] at h
    split at h
    · subst h; rfl
    · split at h
      · subst h; exact caller.shut_conclude request _
      · subst h; rfl
  · cases h

theorem shut_push {n : Nat} (h : caller.push n = some (caller', bytes)) :
    caller'.intake.shut = caller.intake.shut := by
  unfold Caller.push at h
  split at h
  · cases h; rfl
  · split at h
    · cases h
    · cases h; rfl
  · cases h

theorem shut_breakOff {failure : Failure} (h : caller.breakOff failure = some caller') :
    caller'.intake.shut = caller.intake.shut := by
  unfold Caller.breakOff at h
  split at h
  · cases h; exact caller.shut_conclude _ _
  · cases h

end Caller

namespace Worker

variable {worker worker' : Worker σ} {bytes : List UInt8}

theorem shut_push {n : Nat} (h : worker.push n = some (worker', bytes)) :
    worker'.intake.shut = worker.intake.shut := by
  unfold Worker.push at h
  split at h
  · cases h; rfl
  · split at h
    · cases h
    · cases h; rfl
  · cases h

theorem shut_breakOff {failure : Failure} (h : worker.breakOff failure = some worker') :
    worker'.intake.shut = worker.intake.shut := by
  unfold Worker.breakOff at h
  split at h
  · cases h; rfl
  · cases h

end Worker

namespace Dialogue

variable {dialogue next : Dialogue σ} {requests responses : Nat}

/-- The wires are this wide, and a socket that was shut down is shut down in both directions. -/
structure Wired (requests responses : Nat) (dialogue : Dialogue σ) : Prop where
  requests : dialogue.requests.capacity = requests
  responses : dialogue.responses.capacity = responses
  client : dialogue.caller.intake.shut = true →
    dialogue.requests.ended = true ∧ dialogue.responses.cut = true
  server : dialogue.worker.intake.shut = true →
    dialogue.requests.cut = true ∧ dialogue.responses.ended = true

theorem Wired.keeps (h : dialogue.Wired requests responses)
    (hq : dialogue.requests.Keeps next.requests) (hr : dialogue.responses.Keeps next.responses)
    (hc : next.caller.intake.shut = dialogue.caller.intake.shut)
    (hs : next.worker.intake.shut = dialogue.worker.intake.shut) :
    next.Wired requests responses where
  requests := hq.capacity.trans h.requests
  responses := hr.capacity.trans h.responses
  client hshut := by
    obtain ⟨hended, hcut⟩ := h.client (hc ▸ hshut)
    exact ⟨hq.ended hended, hr.cut hcut⟩
  server hshut := by
    obtain ⟨hcut, hended⟩ := h.server (hs ▸ hshut)
    exact ⟨hq.cut hcut, hr.ended hended⟩

theorem Wired.shutDown (h : dialogue.Wired requests responses) (side : Side) :
    (dialogue.shutDown side).Wired requests responses := by
  cases side with
  | client =>
    exact ⟨h.requests, h.responses, fun _ => ⟨rfl, rfl⟩, fun hshut => ⟨(h.server hshut).1,
      (h.server hshut).2⟩⟩
  | server =>
    exact ⟨h.requests, h.responses, fun hshut => ⟨(h.client hshut).1, (h.client hshut).2⟩,
      fun _ => ⟨rfl, rfl⟩⟩

theorem Wired.setIntake {side : Side} {intake : Intake} (h : dialogue.Wired requests responses)
    (hs : intake.shut = (dialogue.intake side).shut) :
    (dialogue.setIntake side intake).Wired requests responses := by
  cases side with
  | client => exact h.keeps (.refl _) (.refl _) hs rfl
  | server => exact h.keeps (.refl _) (.refl _) rfl hs

/-- **Every move keeps the wires.** -/
theorem Wired.turn {action : Action} (h : dialogue.Wired requests responses)
    (ht : dialogue.Turn action next) : next.Wired requests responses := by
  cases ht with
  | asks ha => exact h.keeps (.refl _) (.refl _) (Caller.shut_ask ha) rfl
  | callerWrites hp hw => exact h.keeps hw.keeps (.refl _) (Caller.shut_push hp) rfl
  | callerMeets hb | callerBreaks _ hb =>
    exact h.keeps (.refl _) (.refl _) (Caller.shut_breakOff hb) rfl
  | workerWrites hp hw => exact h.keeps (.refl _) hw.keeps rfl (Worker.shut_push hp)
  | workerMeets hb | workerBreaks _ hb =>
    exact h.keeps (.refl _) (.refl _) rfl (Worker.shut_breakOff hb)
  | interrupted => exact h
  | @pulls side _ _ _ _ _ hr ha =>
    have hkeeps := Wire.keeps_receive hr
    have hshut := Intake.shut_arrive ha
    cases side with
    | client => exact h.keeps (.refl _) hkeeps hshut rfl
    | server => exact h.keeps hkeeps (.refl _) rfl hshut
  | fails ha => exact h.setIntake (Intake.shut_arrive ha)
  | pumps hp => exact h.setIntake (Intake.shut_pumpTurn hp)
  | callerTurns _ hs =>
    exact ⟨h.requests, h.responses, fun hshut => h.client (hs hshut), h.server⟩
  | callerShuts => exact ⟨h.requests, h.responses, fun _ => ⟨rfl, rfl⟩, h.server⟩
  | workerTurns _ hs =>
    exact ⟨h.requests, h.responses, h.client, fun hshut => h.server (hs hshut)⟩
  | workerShuts => exact ⟨h.requests, h.responses, h.client, fun _ => ⟨rfl, rfl⟩⟩
  | closes => exact h.shutDown _

end Dialogue

end Parley
