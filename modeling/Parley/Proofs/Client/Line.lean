import Parley.Client.Line
import Parley.Proofs.Client.Caller
import Parley.Proofs.Exchange.Wire

/-!
# What a client and its peer can do

`Line.Turn` lists the moves of a client with any peer, and what each of them does to the client and
to what its socket holds. Whatever the peer does, the client stays sound, its answers are never
taken back, and once it has given its connection up it does not get it back.
-/

namespace Parley

open Transport (Intake)

namespace Line

variable {line next : Line} {action : Action} {capacity : Nat}

/-- The moves of a client, of its socket and of its peer. -/
inductive Turn (line : Line) : Action → Line → Prop
  | asks {request : Message} {caller : Caller} (h : line.caller.ask request = some caller) :
    Turn line (.send request) { line with caller }
  | writes {n : Nat} {caller : Caller} {bytes : List UInt8}
      (h : line.caller.push n = some (caller, bytes)) : Turn line (.push n) { line with caller }
  | breaks {action : Action} {failure : Failure} {caller : Caller}
      (h : line.caller.breakOff failure = some caller) : Turn line action { line with caller }
  /-- Bytes arrive, or there will be no more. -/
  | sockets {action : Action} {responses : Wire}
      (h : line.responses.cut = true →
        responses.cut = true ∧ responses.held = line.responses.held) :
    Turn line action { line with responses }
  | pulls {n : Nat} {bytes : List UInt8} {intake : Intake} {responses : Wire} (hn : 0 < n)
      (hr : line.responses.receive n = some (bytes, responses))
      (h : line.caller.intake.arrive (.ok bytes) = some intake) :
    Turn line (.pull n) { caller := { line.caller with intake }, responses }
  | fails {failure : Failure} {intake : Intake}
      (h : line.caller.intake.arrive (.error failure) = some intake) :
    Turn line (.fail failure) { line with caller := { line.caller with intake } }
  | pumps {intake : Intake} (h : line.caller.intake.pumpTurn = some intake) :
    Turn line .pump { line with caller := { line.caller with intake } }
  | turns {caller : Caller} {responses : Wire} (h : line.caller.turn = some caller)
      (hh : responses.held = line.responses.held)
      (hc : line.responses.cut = true → responses.cut = true) :
    Turn line .owner { caller, responses }

theorem turn_of_push {n : Nat} (h : line.push n = some next) : line.Turn (.push n) next := by
  unfold push at h
  split at h
  · split at h
    · obtain ⟨caller, hbreak, rfl⟩ := Option.map_eq_some_iff.mp h
      exact .breaks hbreak
    · obtain ⟨⟨caller, bytes⟩, hpush, rfl⟩ := Option.map_eq_some_iff.mp h
      exact .writes hpush
  · obtain ⟨⟨caller, bytes⟩, hpush, rfl⟩ := Option.map_eq_some_iff.mp h
    exact .writes hpush

theorem exists_of_pull {n : Nat} (h : line.pull n = some next) :
    ∃ bytes intake responses, 0 < n ∧ line.responses.receive n = some (bytes, responses) ∧
      line.caller.intake.arrive (.ok bytes) = some intake ∧
      next = { caller := { line.caller with intake }, responses } := by
  unfold pull at h
  split at h
  · cases h
  · next hn =>
    simp only [Option.bind_eq_bind, Option.bind_eq_some_iff, Option.pure_def,
      Option.some.injEq] at h
    obtain ⟨⟨bytes, responses⟩, hreceive, intake, harrive, rfl⟩ := h
    exact ⟨bytes, intake, responses, Nat.pos_of_ne_zero hn, hreceive, harrive, rfl⟩

theorem exists_of_turn (h : line.turn = some next) :
    ∃ caller responses, line.caller.turn = some caller ∧
      responses.held = line.responses.held ∧
      (line.responses.cut = true → responses.cut = true) ∧ next = { caller, responses } := by
  obtain ⟨caller, hturn, rfl⟩ := Option.map_eq_some_iff.mp h
  split
  · exact ⟨caller, { line.responses with cut := true }, hturn, rfl, fun _ => rfl, rfl⟩
  · exact ⟨caller, line.responses, hturn, rfl, fun hcut => hcut, rfl⟩

/-- **The moves are these.** -/
theorem turn_of_step (h : line.step action = some next) : line.Turn action next := by
  cases action with
  | send request =>
    obtain ⟨caller, hask, rfl⟩ := Option.map_eq_some_iff.mp h
    exact .asks hask
  | push n => exact turn_of_push h
  | refuse failure =>
    simp only [step] at h
    split at h
    · cases h
      exact .sockets fun hcut => ⟨hcut, rfl⟩
    · obtain ⟨caller, hbreak, rfl⟩ := Option.map_eq_some_iff.mp h
      exact .breaks hbreak
  | deliver bytes =>
    obtain ⟨responses, hsend, rfl⟩ := Option.map_eq_some_iff.mp h
    refine .sockets fun hcut => ?_
    rw [Wire.not_cut_of_send hsend] at hcut
    cases hcut
  | hangUp =>
    cases h
    exact .sockets fun hcut => ⟨hcut, rfl⟩
  | pull n =>
    obtain ⟨bytes, intake, responses, hn, hreceive, harrive, rfl⟩ := exists_of_pull h
    exact .pulls hn hreceive harrive
  | fail failure =>
    obtain ⟨intake, harrive, rfl⟩ := Option.map_eq_some_iff.mp h
    exact .fails harrive
  | pump =>
    obtain ⟨intake, hpump, rfl⟩ := Option.map_eq_some_iff.mp h
    exact .pumps hpump
  | owner =>
    obtain ⟨caller, responses, hturn, hheld, hcut, rfl⟩ := exists_of_turn h
    exact .turns hturn hheld hcut
  | close =>
    cases h
    exact .sockets fun _ => ⟨rfl, rfl⟩

theorem run_turn {P : Line → Prop} {actions : List Action}
    (hturn : ∀ {line action next}, P line → action ∈ actions → line.Turn action next → P next)
    (hp : P line) (h : line.run actions = some next) : P next := by
  induction actions generalizing line with
  | nil => cases h; exact hp
  | cons action rest ih =>
    obtain ⟨mid, hstep, hrest⟩ := Option.bind_eq_some_iff.mp h
    refine ih (fun hp hm ht => hturn hp (List.mem_cons_of_mem _ hm) ht) ?_ hrest
    exact hturn hp List.mem_cons_self (turn_of_step hstep)

/-- **Whatever the peer does, the client is sound.** -/
theorem sound_turn (h : line.caller.Sound capacity) (ht : line.Turn action next) :
    next.caller.Sound capacity := by
  cases ht with
  | asks ha => exact h.ask ha
  | writes hp => exact h.push hp
  | breaks hb => exact h.breakOff hb
  | sockets => exact h
  | pulls hn hr ha => exact h.arrives ha
  | fails ha => exact h.arrives ha
  | pumps hp => exact h.pumps hp
  | turns ht => exact h.turn ht

/-- **What the client has told stands.** -/
theorem Turn.keeps (h : line.caller.Sound capacity) (ht : line.Turn action next) :
    line.caller.Keeps next.caller := by
  cases ht with
  | asks ha => exact Caller.keeps_ask ha
  | writes hp => exact Caller.keeps_push hp
  | breaks hb => exact Caller.keeps_breakOff hb
  | sockets | pulls | fails | pumps => exact .same line.caller _ _
  | turns ht => exact (h.turn_of_turn ht).keeps

theorem sound_of_run {config : Config} {held : Nat} {start : Line} {actions : List Action}
    (hstart : start? config held = some start) (h : start.run actions = some line) :
    line.caller.Sound config.bufferCapacity := by
  obtain ⟨caller, hcaller, rfl⟩ := Option.map_eq_some_iff.mp hstart
  exact run_turn (fun hp _ ht => sound_turn hp ht) (Caller.sound_ofConfig? hcaller) h

end Line

end Parley
