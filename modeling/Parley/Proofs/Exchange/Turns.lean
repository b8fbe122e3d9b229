import Parley.Exchange.Dialogue
import Parley.Proofs.Exchange.Wire
import Parley.Proofs.Server.Turns
import Parley.Proofs.Transport.Messages

/-!
# What the two ends of a connection can do

`Dialogue.Turn` lists the moves of a dialogue with all that each of them changes, and when it can
be made. A socket takes bytes as long as its wire is open, and the end that writes to a closed one
finds a broken pipe; an end that has come to shut its socket down does so.

**The ends alone** (`Dialogue.Acts`). Every move is one of the client or of the worker, or concerns
the sockets alone. `Acts` leaves out whether the wires are open, and keeps what becomes of the
bytes that they hold: a socket's reads take them off the front, and what a socket takes goes
behind them.
-/

namespace Parley

open Transport (Intake)

variable {σ : Type}

/-- The bytes that a move brings to a worker. -/
def Worker.Move.bytes (move : Worker.Move) : List UInt8 :=
  (move.inner?.map Transport.Move.bytes).getD []

namespace Dialogue

variable {dialogue next : Dialogue σ} {action : Action}

/-! ## The moves -/

/-- The moves of the two ends, of their sockets and of whoever closes these. -/
inductive Turn (dialogue : Dialogue σ) : Action → Dialogue σ → Prop
  | asks {request : Message} {caller : Caller} (h : dialogue.caller.ask request = some caller) :
    Turn dialogue (.send request) { dialogue with caller }
  | callerWrites {n : Nat} {caller : Caller} {bytes : List UInt8} {requests : Wire}
      (h : dialogue.caller.push n = some (caller, bytes))
      (hw : dialogue.requests.Takes bytes requests) :
    Turn dialogue (.push .client n) { dialogue with caller, requests }
  /-- The client writes to a wire that is closed. -/
  | callerMeets {n : Nat} {caller : Caller}
      (h : dialogue.caller.breakOff .brokenPipe = some caller)
      (hw : dialogue.requests.isOpen = false) :
    Turn dialogue (.push .client n) { dialogue with caller }
  | workerWrites {n : Nat} {worker : Worker σ} {bytes : List UInt8} {responses : Wire}
      (h : dialogue.worker.push n = some (worker, bytes))
      (hw : dialogue.responses.Takes bytes responses) :
    Turn dialogue (.push .server n) { dialogue with worker, responses }
  | workerMeets {n : Nat} {worker : Worker σ}
      (h : dialogue.worker.breakOff .brokenPipe = some worker)
      (hw : dialogue.responses.isOpen = false) :
    Turn dialogue (.push .server n) { dialogue with worker }
  | interrupted {side : Side} {failure : Failure} (hk : failure.kind = .interrupted) :
    Turn dialogue (.refuse side failure) dialogue
  | callerBreaks {failure : Failure} {caller : Caller} (hk : failure.kind ≠ .interrupted)
      (h : dialogue.caller.breakOff failure = some caller) :
    Turn dialogue (.refuse .client failure) { dialogue with caller }
  | workerBreaks {failure : Failure} {worker : Worker σ} (hk : failure.kind ≠ .interrupted)
      (h : dialogue.worker.breakOff failure = some worker) :
    Turn dialogue (.refuse .server failure) { dialogue with worker }
  | pulls {side : Side} {n : Nat} {bytes : List UInt8} {wire : Wire} {intake : Intake}
      (hn : 0 < n) (hr : (dialogue.incoming side).receive n = some (bytes, wire))
      (h : (dialogue.intake side).arrive (.ok bytes) = some intake) :
    Turn dialogue (.pull side n) ((dialogue.setIntake side intake).setIncoming side wire)
  | fails {side : Side} {failure : Failure} {intake : Intake}
      (h : (dialogue.intake side).arrive (.error failure) = some intake) :
    Turn dialogue (.fail side failure) (dialogue.setIntake side intake)
  | pumps {side : Side} {intake : Intake} (h : (dialogue.intake side).pumpTurn = some intake) :
    Turn dialogue (.pump side) (dialogue.setIntake side intake)
  | callerTurns {caller : Caller} (h : dialogue.caller.turn = some caller)
      (hs : caller.intake.shut = true → dialogue.caller.intake.shut = true) :
    Turn dialogue (.owner .client) { dialogue with caller }
  | callerShuts {caller : Caller} (h : dialogue.caller.turn = some caller)
      (hs : caller.intake.shut = true) :
    Turn dialogue (.owner .client) (({ dialogue with caller } : Dialogue σ).shutDown .client)
  | workerTurns {worker : Worker σ} (h : dialogue.worker.turn = some worker)
      (hs : worker.intake.shut = true → dialogue.worker.intake.shut = true) :
    Turn dialogue (.owner .server) { dialogue with worker }
  | workerShuts {worker : Worker σ} (h : dialogue.worker.turn = some worker)
      (hs : worker.intake.shut = true) :
    Turn dialogue (.owner .server) (({ dialogue with worker } : Dialogue σ).shutDown .server)
  | closes {side : Side} : Turn dialogue (.close side) (dialogue.shutDown side)

theorem turn_of_pushRequest {n : Nat} (h : dialogue.pushRequest n = some next) :
    dialogue.Turn (.push .client n) next := by
  unfold pushRequest at h
  split at h
  · split at h
    · simp only [Option.bind_eq_bind, Option.bind_eq_some_iff, Option.pure_def,
        Option.some.injEq] at h
      obtain ⟨⟨caller, bytes⟩, hpush, requests, hsend, rfl⟩ := h
      exact .callerWrites hpush (.inr hsend)
    · next hclosed =>
      simp only [Option.bind_eq_bind, Option.bind_eq_some_iff, Option.pure_def,
        Option.some.injEq] at h
      obtain ⟨caller, hbreak, rfl⟩ := h
      exact .callerMeets hbreak (Bool.eq_false_of_not_eq_true hclosed)
  · next hnot =>
    simp only [Option.bind_eq_bind, Option.bind_eq_some_iff, Option.pure_def,
      Option.some.injEq] at h
    obtain ⟨⟨caller, bytes⟩, hpush, rfl⟩ := h
    -- Nothing is written unless something is left to be written.
    obtain rfl : bytes = [] := by
      unfold Caller.push at hpush
      split at hpush
      · cases hpush; rfl
      · next request left hne hasking =>
        obtain ⟨byte, more, rfl⟩ := List.exists_cons_of_ne_nil hne
        exact absurd hasking (hnot _ _ _)
      · cases hpush
    exact .callerWrites hpush (.inl ⟨rfl, rfl⟩)

theorem turn_of_pushResponse {n : Nat} (h : dialogue.pushResponse n = some next) :
    dialogue.Turn (.push .server n) next := by
  unfold pushResponse at h
  split at h
  · split at h
    · simp only [Option.bind_eq_bind, Option.bind_eq_some_iff, Option.pure_def,
        Option.some.injEq] at h
      obtain ⟨⟨worker, bytes⟩, hpush, responses, hsend, rfl⟩ := h
      exact .workerWrites hpush (.inr hsend)
    · next hclosed =>
      simp only [Option.bind_eq_bind, Option.bind_eq_some_iff, Option.pure_def,
        Option.some.injEq] at h
      obtain ⟨worker, hbreak, rfl⟩ := h
      exact .workerMeets hbreak (Bool.eq_false_of_not_eq_true hclosed)
  · next hnot =>
    simp only [Option.bind_eq_bind, Option.bind_eq_some_iff, Option.pure_def,
      Option.some.injEq] at h
    obtain ⟨⟨worker, bytes⟩, hpush, rfl⟩ := h
    obtain rfl : bytes = [] := by
      unfold Worker.push at hpush
      split at hpush
      · cases hpush; rfl
      · next left hne hserving =>
        obtain ⟨byte, more, rfl⟩ := List.exists_cons_of_ne_nil hne
        exact absurd hserving (hnot _ _)
      · cases hpush
    exact .workerWrites hpush (.inl ⟨rfl, rfl⟩)

theorem turn_of_pull {side : Side} {n : Nat} (h : dialogue.pull side n = some next) :
    dialogue.Turn (.pull side n) next := by
  unfold pull at h
  split at h
  · cases h
  · next hn =>
    simp only [Option.bind_eq_bind, Option.bind_eq_some_iff, Option.pure_def,
      Option.some.injEq] at h
    obtain ⟨⟨bytes, wire⟩, hreceive, intake, harrive, rfl⟩ := h
    exact .pulls (Nat.pos_of_ne_zero hn) hreceive harrive

theorem turn_of_turn {side : Side} (h : dialogue.turn side = some next) :
    dialogue.Turn (.owner side) next := by
  cases side with
  | client =>
    simp only [turn, Option.bind_eq_bind, Option.bind_eq_some_iff, Option.pure_def,
      Option.some.injEq] at h
    obtain ⟨mid, hmid, rfl⟩ := h
    obtain ⟨caller, hturn, rfl⟩ := Option.map_eq_some_iff.mp hmid
    split
    · next hshuts => exact .callerShuts hturn (Bool.and_eq_true_iff.mp hshuts).1
    · next hnot =>
      refine .callerTurns hturn fun hshut => ?_
      simpa [intake, hshut] using hnot
  | server =>
    simp only [turn, Option.bind_eq_bind, Option.bind_eq_some_iff, Option.pure_def,
      Option.some.injEq] at h
    obtain ⟨mid, hmid, rfl⟩ := h
    obtain ⟨worker, hturn, rfl⟩ := Option.map_eq_some_iff.mp hmid
    split
    · next hshuts => exact .workerShuts hturn (Bool.and_eq_true_iff.mp hshuts).1
    · next hnot =>
      refine .workerTurns hturn fun hshut => ?_
      simpa [intake, hshut] using hnot

/-- **The moves are these.** -/
theorem turn_of_step (h : dialogue.step action = some next) : dialogue.Turn action next := by
  cases action with
  | send request =>
    obtain ⟨caller, hask, rfl⟩ := Option.map_eq_some_iff.mp h
    exact .asks hask
  | push side n =>
    cases side with
    | client => exact turn_of_pushRequest h
    | server => exact turn_of_pushResponse h
  | refuse side failure =>
    simp only [step, refuse] at h
    split at h
    · next hk => cases h; exact .interrupted hk
    · next hk =>
      cases side with
      | client =>
        obtain ⟨caller, hbreak, rfl⟩ := Option.map_eq_some_iff.mp h
        exact .callerBreaks hk hbreak
      | server =>
        obtain ⟨worker, hbreak, rfl⟩ := Option.map_eq_some_iff.mp h
        exact .workerBreaks hk hbreak
  | pull side n => exact turn_of_pull h
  | fail side failure =>
    obtain ⟨intake, harrive, rfl⟩ := Option.map_eq_some_iff.mp h
    exact .fails harrive
  | pump side =>
    obtain ⟨intake, hpump, rfl⟩ := Option.map_eq_some_iff.mp h
    exact .pumps hpump
  | owner side => exact turn_of_turn h
  | close side => cases h; exact .closes

theorem run_turn {P : Dialogue σ → Prop} {actions : List Action}
    (hturn : ∀ {dialogue action next}, P dialogue → action ∈ actions →
      dialogue.Turn action next → P next)
    (hp : P dialogue) (h : dialogue.run actions = some next) : P next := by
  induction actions generalizing dialogue with
  | nil => cases h; exact hp
  | cons action rest ih =>
    obtain ⟨mid, hstep, hrest⟩ := Option.bind_eq_some_iff.mp h
    refine ih (fun hp hm ht => hturn hp (List.mem_cons_of_mem _ hm) ht) ?_ hrest
    exact hturn hp List.mem_cons_self (turn_of_step hstep)

/-! ## The ends alone -/

/-- What a move is to the two ends. -/
inductive Acts (dialogue : Dialogue σ) : Dialogue σ → Prop
  | asks {request : Message} {caller : Caller} (h : dialogue.caller.ask request = some caller) :
    Acts dialogue { dialogue with caller }
  | callerWrites {n : Nat} {caller : Caller} {bytes : List UInt8} {requests : Wire}
      (h : dialogue.caller.push n = some (caller, bytes))
      (hq : requests.held = dialogue.requests.held ++ bytes) :
    Acts dialogue { dialogue with caller, requests }
  | callerBreaks {failure : Failure} {caller : Caller}
      (h : dialogue.caller.breakOff failure = some caller) : Acts dialogue { dialogue with caller }
  | callerGoes {move : Transport.Move} {intake : Intake} {responses : Wire}
      (h : dialogue.caller.intake.step move = some (intake, none))
      (ho : intake.owner = dialogue.caller.intake.owner)
      (hr : dialogue.responses.held = move.bytes ++ responses.held) :
    Acts dialogue { dialogue with caller := { dialogue.caller with intake }, responses }
  | callerTurns {caller : Caller} {requests responses : Wire}
      (h : dialogue.caller.turn = some caller) (hq : requests.held = dialogue.requests.held)
      (hr : responses.held = dialogue.responses.held) :
    Acts dialogue { dialogue with caller, requests, responses }
  | workerSteps {move : Worker.Move} {worker : Worker σ} {bytes : List UInt8}
      {requests responses : Wire} (h : dialogue.worker.step move = some (worker, bytes))
      (hq : dialogue.requests.held = move.bytes ++ requests.held)
      (hr : responses.held = dialogue.responses.held ++ bytes) :
    Acts dialogue { dialogue with worker, requests, responses }
  | workerBreaks {failure : Failure} {worker : Worker σ}
      (h : dialogue.worker.breakOff failure = some worker) : Acts dialogue { dialogue with worker }
  | sockets {requests responses : Wire} (hq : requests.held = dialogue.requests.held)
      (hr : responses.held = dialogue.responses.held) :
    Acts dialogue { dialogue with requests, responses }

theorem acts_of_arrive {side : Side} {arrival : Except Failure (List UInt8)} {intake : Intake}
    {wire : Wire} (h : (dialogue.intake side).arrive arrival = some intake)
    (hw : (dialogue.incoming side).held = Transport.Move.bytes (.arrive arrival) ++ wire.held) :
    dialogue.Acts ((dialogue.setIntake side intake).setIncoming side wire) := by
  cases side with
  | client =>
    refine .callerGoes (Intake.step_arrive h) ?_ hw
    cases Intake.arrives_of_arrive h <;> rfl
  | server =>
    have hstep : dialogue.worker.step (.arrive arrival) =
        some ({ dialogue.worker with intake }, []) :=
      Option.map_eq_some_iff.mpr ⟨intake, h, rfl⟩
    exact .workerSteps hstep hw (List.append_nil _).symm

theorem acts_of_worker {worker : Worker σ} {requests responses : Wire}
    (h : dialogue.worker.turn = some worker) (hq : requests.held = dialogue.requests.held)
    (hr : responses.held = dialogue.responses.held) :
    dialogue.Acts { dialogue with worker, requests, responses } :=
  .workerSteps (Worker.step_of_turn h) hq.symm (hr.trans (List.append_nil _).symm)

/-- **Every move is one of these.** -/
theorem Turn.acts (h : dialogue.Turn action next) : dialogue.Acts next := by
  cases h with
  | asks ha => exact .asks ha
  | callerWrites hp hw => exact .callerWrites hp hw.held
  | callerMeets hb | callerBreaks _ hb => exact .callerBreaks hb
  | @workerWrites n worker bytes responses hp hw =>
    have hstep : dialogue.worker.step (.push n) = some (worker, bytes) := hp
    exact .workerSteps hstep rfl hw.held
  | workerMeets hb | workerBreaks _ hb => exact .workerBreaks hb
  | interrupted => exact .sockets rfl rfl
  | pulls _ hr ha => exact acts_of_arrive ha (Wire.held_of_receive hr)
  | @fails side failure intake ha =>
    have hacts : dialogue.Acts
        ((dialogue.setIntake side intake).setIncoming side (dialogue.incoming side)) :=
      acts_of_arrive ha rfl
    cases side <;> exact hacts
  | @pumps side intake hp =>
    cases side with
    | client =>
      refine .callerGoes (Intake.step_pump hp) ?_ rfl
      cases Intake.turn_of_pumpTurn hp <;> rfl
    | server =>
      have hstep : dialogue.worker.step .pump = some ({ dialogue.worker with intake }, []) :=
        Option.map_eq_some_iff.mpr ⟨intake, hp, rfl⟩
      exact .workerSteps hstep rfl (List.append_nil _).symm
  | callerTurns ht | callerShuts ht => exact .callerTurns ht rfl rfl
  | workerTurns ht | workerShuts ht => exact acts_of_worker ht rfl rfl
  | @closes side =>
    cases side with
    | client => exact .sockets rfl rfl
    | server => exact .sockets rfl rfl

end Dialogue

end Parley
