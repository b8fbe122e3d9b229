import Parley.Proofs.Server.Turns

/-!
# What is handed to a handler

A handler that keeps a state sees the requests one after the other. `Handler.run` says what it
replies to them all, and `Worker.Traces` that a worker has handed it just the requests that it
records. No move of a worker hands it another one, or one of them twice.
-/

namespace Parley

variable {σ : Type}

/-- What a handler replies to requests one after the other, and what it keeps then. -/
def Handler.run (handler : Handler σ) (state : σ) : List Message → List Reply × σ
  | [] => ([], state)
  | request :: requests =>
    let (reply, next) := handler state request
    let (replies, last) := handler.run next requests
    (reply :: replies, last)

theorem Handler.run_concat {handler : Handler σ} {state mid last : σ} {requests : List Message}
    {replies : List Reply} {request : Message} {reply : Reply}
    (h : handler.run state requests = (replies, mid)) (hr : handler mid request = (reply, last)) :
    handler.run state (requests ++ [request]) = (replies ++ [reply], last) := by
  induction requests generalizing state replies with
  | nil =>
    cases h
    simp [run, hr]
  | cons first requests ih =>
    simp only [run, Prod.mk.injEq] at h
    obtain ⟨rfl, hmid⟩ := h
    have hrest := ih (Prod.ext rfl hmid)
    simp [run, hrest]

/-- The response that a reply sends, within the limit. -/
def Reply.within? (max : UInt32) : Reply → Option Message
  | response message => if message.encode.length ≤ max.toNat then some message else none
  | refusal _ | crash => none

theorem Reply.eq_of_within? {max : UInt32} {reply : Reply} {message : Message}
    (h : reply.within? max = some message) :
    reply = .response message ∧ message.encode.length ≤ max.toNat := by
  cases reply with
  | response =>
    simp only [within?, Option.ite_none_right_eq_some, Option.some.injEq] at h
    obtain ⟨hle, rfl⟩ := h
    exact ⟨rfl, hle⟩
  | refusal | crash => cases h

namespace Worker

variable {worker worker' : Worker σ} {move : Move} {bytes : List UInt8} {handler : Handler σ}
  {start : σ}

/-- A reply within the limit is written, and any other ends the service. -/
theorem exists_handle (worker : Worker σ) (request : Message) :
    ∃ reply next, worker.handler worker.state request = (reply, next) ∧
      let answered : Worker σ :=
        { worker with state := next, handled := worker.handled ++ [(request, reply)] }
      (∃ response, reply.within? worker.intake.max = some response ∧ worker.handle request =
          { answered with serving := .writing (Frame.encode response.encode) }) ∨
        reply.within? worker.intake.max = none ∧
          ∃ status, worker.handle request = answered.quit status := by
  cases h : worker.handler worker.state request with
  | mk reply next =>
    refine ⟨reply, next, rfl, ?_⟩
    cases reply with
    | refusal text => exact .inr ⟨rfl, _, worker.handle_refusal h⟩
    | crash => exact .inr ⟨rfl, _, worker.handle_crash h⟩
    | response response =>
      by_cases hfits : response.encode.length ≤ worker.intake.max.toNat
      · exact .inl ⟨response, if_pos hfits, worker.handle_answer h hfits⟩
      · exact .inr ⟨if_neg hfits, _, worker.handle_tooLarge h (Nat.lt_of_not_le hfits)⟩

/-- The handler has been given the requests handled, and nothing else. -/
structure Traces (handler : Handler σ) (start : σ) (worker : Worker σ) : Prop where
  same : worker.handler = handler
  replies : handler.run start (worker.handled.map Prod.fst) =
    (worker.handled.map Prod.snd, worker.state)

theorem Traces.take (h : worker.Traces handler start) (report : Report) :
    (worker.take report).Traces handler start := by
  match report with
  | .ok none | .error _ => exact ⟨h.same, h.replies⟩
  | .ok (some request) =>
    obtain ⟨reply, next, hreply, hhandle⟩ := worker.exists_handle request
    have hrun : handler.run start ((worker.handled ++ [(request, reply)]).map Prod.fst) =
        ((worker.handled ++ [(request, reply)]).map Prod.snd, next) := by
      rw [h.same] at hreply
      simpa using Handler.run_concat h.replies hreply
    rw [Worker.take]
    rcases hhandle with ⟨response, -, heq⟩ | ⟨-, status, heq⟩
    · rw [heq]
      exact ⟨h.same, hrun⟩
    · rw [heq]
      exact ⟨h.same, hrun⟩

theorem Traces.step (h : worker.Traces handler start)
    (hs : worker.step move = some (worker', bytes)) : worker'.Traces handler start := by
  cases move with
  | arrive | pump =>
    obtain ⟨intake, -, heq⟩ := Option.map_eq_some_iff.mp hs
    cases heq
    exact ⟨h.same, h.replies⟩
  | owner =>
    obtain ⟨next, hturn, heq⟩ := Option.map_eq_some_iff.mp hs
    cases heq
    simp only [turn, Option.bind_eq_bind, Option.bind_eq_some_iff, Option.pure_def,
      Option.some.injEq] at hturn
    obtain ⟨⟨intake, report⟩, -, rfl⟩ := hturn
    have hintake : ({ worker with intake } : Worker σ).Traces handler start := ⟨h.same, h.replies⟩
    split
    · exact hintake.take _
    · exact ⟨h.same, h.replies⟩
    · exact hintake
  | push n =>
    simp only [Worker.step, push] at hs
    split at hs
    · cases hs; exact ⟨h.same, h.replies⟩
    · split at hs
      · cases hs
      · cases hs; exact ⟨h.same, h.replies⟩
    · cases hs

theorem Traces.breakOff {failure : Failure} (h : worker.Traces handler start)
    (hb : worker.breakOff failure = some worker') : worker'.Traces handler start := by
  unfold Worker.breakOff at hb
  split at hb
  · cases hb; exact ⟨h.same, h.replies⟩
  · cases hb

end Worker

end Parley
