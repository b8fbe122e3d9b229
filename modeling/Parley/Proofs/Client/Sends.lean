import Parley.Client.Session
import Parley.Proofs.Client.Line

/-!
# How sends go

Every move at a client's connection takes the send under way from one stage to the next, or leaves
it where it is. `Line.Stride` lists what a move can do to it and says when the move brings out what
writing and reading came to (`Line.comes?`).

**Reports** (`Transport.Intake.Frank`). Reading never comes to the error that a client without a
connection returns. An owner that is gone has seen its pump finish, so nobody reads the socket any
more.

**Theorem (`Line.stride_of_step`).** A move at the connection of a sound client is one of these
strides. What a send came to is brought out once, and the client goes on with what `responseOf`
makes of it.
-/

namespace Parley

open Transport (Intake Owner)
open Parley.Frame (Outcome)

/-! ## What reading comes to -/

theorem Report.ofOutcome_ne_closed (outcome : Outcome) : ofOutcome outcome ≠ .error .closed := by
  intro h
  cases outcome with
  | ended | error => cases h
  | body body =>
    rw [ofOutcome, ofBody] at h
    cases hd : Message.decode body with
    | error error => rw [hd] at h; cases h
    | ok message => rw [hd] at h; cases h

namespace Transport.Intake

variable {intake next : Intake} {move : Move} {report : Option Report} {capacity : Nat}

/-- An owner that is about to tell of an end does not say that there is no connection, and one that
is gone has seen its pump finish. -/
structure Frank (intake : Intake) : Prop where
  telling : ∀ told, intake.owner = .ending told → told ≠ .error .closed
  joined : intake.owner = .gone → intake.pump = .finished

theorem frank_of_owner (he : ¬intake.owner.IsEnding) (hg : intake.owner ≠ .gone) :
    intake.Frank where
  telling told ho := by
    rw [ho] at he
    exact absurd trivial he
  joined ho := absurd ho hg

theorem Frank.of_owner_eq (h : intake.Frank) (ho : next.owner = intake.owner)
    (hp : intake.pump ≠ .finished) : next.Frank :=
  ⟨fun told heq => h.telling told (ho ▸ heq), fun heq => absurd (h.joined (ho ▸ heq)) hp⟩

/-- **Every move keeps this**, and none reports that there is no connection. -/
theorem Frank.step (hs : intake.Sound capacity) (h : intake.Frank)
    (hstep : intake.step move = some (next, report)) :
    next.Frank ∧ report ≠ some (.error .closed) := by
  have hquiet : (none : Option Report) ≠ some (.error .closed) := (Option.some_ne_none _).symm
  cases hs.turn_of_step hstep with
  | arrives ha =>
    cases ha with
    | interrupted => exact ⟨h, hquiet⟩
    | ended hp | bytes hp | failed hp => exact ⟨h.of_owner_eq rfl (by simp [hp]), hquiet⟩
  | pump ht =>
    cases ht with
    | wrote hf | refused hf | waits hf =>
      exact ⟨h.of_owner_eq rfl fun hp => hf.underWay (.inr hp), hquiet⟩
    | reports hp | closes hp => exact ⟨h.of_owner_eq rfl (by simp [hp]), hquiet⟩
  | owner ht =>
    cases ht with
    | adds | shuts | releases => exact ⟨frank_of_owner id nofun, hquiet⟩
    | waits ho => exact ⟨frank_of_owner (by rw [ho]; exact id) (by rw [ho]; nofun), hquiet⟩
    | @completes _ _ _ outcome =>
      refine ⟨frank_of_owner id nofun, fun heq => ?_⟩
      exact Report.ofOutcome_ne_closed outcome (Option.some.inj heq)
    | @meetsEnd _ _ outcome =>
      refine ⟨⟨fun told heq => ?_, nofun⟩, hquiet⟩
      cases heq
      exact Report.ofOutcome_ne_closed outcome
    | tellsFailure =>
      refine ⟨frank_of_owner id nofun, fun heq => ?_⟩
      cases Except.error.inj (Option.some.inj heq)
    | tells ho =>
      exact ⟨frank_of_owner id nofun, fun heq => h.telling _ ho (Option.some.inj heq)⟩
    | joins ho hp =>
      refine ⟨⟨fun told heq => ?_, fun _ => hp⟩, hquiet⟩
      cases heq
  | read | leave => exact ⟨frank_of_owner id nofun, hquiet⟩

theorem Sound.leaves_of_step (h : intake.Sound capacity) (hl : intake.owner.Leaves)
    (hstep : intake.step move = some (next, report)) :
    next.owner.Leaves ∨ next.owner = .gone := by
  cases h.turn_of_step hstep with
  | arrives ha => cases ha <;> exact .inl hl
  | pump ht => cases ht <;> exact .inl hl
  | owner ht =>
    rcases ht.owner with ⟨hwants, -⟩ | ⟨-, -, hnext⟩
    · exact absurd hl hwants.not_leaves
    · exact hnext
  | read ho | leave ho => exact absurd ho hl.busy.1

end Transport.Intake

theorem Message.frame_ne_closed {max : UInt32} {error : TransportError} (request : Message)
    (h : request.frame max = .error error) : error ≠ .closed := by
  rw [frame] at h
  cases hm : Frame.make max request.encode with
  | ok => rw [hm] at h; cases h
  | error => rw [hm] at h; cases h; nofun

/-! ## What a move does to a send -/

/-- The client writes a request or waits for the response. -/
def Asking.Sends : Asking → Prop
  | writing _ _ | awaiting _ => True
  | idle | leaving _ _ => False

namespace Line

variable {line next : Line} {action : Action} {capacity : Nat} {caller : Caller}
  {request : Message} {report : Report}

/-- What a move does to the send under way, and what it brings out about it. -/
inductive Stride (line : Line) : Option Report → Line → Prop
  | stays {next : Line} (hasking : next.caller.asking = line.caller.asking)
      (hclient : next.caller.client = line.caller.client)
      (hanswered : next.caller.answered = line.caller.answered) : Stride line none next
  /-- It is begun, or goes on. -/
  | sends {next : Line} (hc : line.caller.client.connected = true)
      (hasking : next.caller.asking.Sends) (hclient : next.caller.client = line.caller.client)
      (hanswered : next.caller.answered = line.caller.answered) : Stride line none next
  | answers {next : Line} {request response : Message} {report : Report}
      (hc : line.caller.client.connected = true)
      (hr : Client.responseOf report = .ok response) (hasking : next.caller.asking = .idle)
      (hclient : next.caller.client = line.caller.client)
      (hanswered : next.caller.answered = line.caller.answered ++ [(request, .ok response)]) :
    Stride line (some report) next
  /-- The client begins to give its connection up. -/
  | fails {next : Line} {request : Message} {report : Report} {error : TransportError}
      (hc : line.caller.client.connected = true) (hne : report ≠ .error .closed)
      (hr : Client.responseOf report = .error error)
      (hasking : next.caller.asking = .leaving request error)
      (hanswered : next.caller.answered = line.caller.answered) : Stride line (some report) next
  /-- The client has given its connection up. -/
  | parts {next : Line} {request : Message} {error : TransportError}
      (hleaving : line.caller.asking = .leaving request error)
      (hasking : next.caller.asking = .idle) (hclient : next.caller.client = line.caller.client)
      (hanswered : next.caller.answered = line.caller.answered ++ [(request, .error error)]) :
    Stride line none next
  /-- There is no connection. -/
  | refuses {next : Line} {request : Message} (hidle : line.caller.asking = .idle)
      (hc : line.caller.client.connected = false) (hasking : next.caller.asking = .idle)
      (hclient : next.caller.client = line.caller.client)
      (hanswered : next.caller.answered = line.caller.answered ++ [(request, .error .closed)]) :
    Stride line none next

theorem stride_conclude (hnext : next.caller = caller.conclude request report)
    (hclient : caller.client = line.caller.client)
    (hanswered : caller.answered = line.caller.answered)
    (hc : line.caller.client.connected = true) (hne : report ≠ .error .closed) :
    line.Stride (some report) next := by
  cases hr : Client.responseOf report with
  | ok response =>
    rw [Caller.conclude_of_ok hr, hanswered] at hnext
    exact .answers hc hr (by rw [hnext]) (by rw [hnext, hclient]) (by rw [hnext])
  | error error =>
    rw [Caller.conclude_of_error hr] at hnext
    exact .fails hc hne hr (by rw [hnext]; rfl) (by rw [hnext, ← hanswered]; rfl)

theorem stride_ask (h : line.caller.ask request = some caller) :
    line.Stride (line.comes? (.send request)) { line with caller } := by
  unfold Caller.ask at h
  split at h
  · next hidle =>
    cases hc : line.caller.client.connected with
    | false =>
      simp only [hc, Bool.not_false, if_true, Option.some.injEq] at h
      subst h
      simp only [comes?, hidle, hc]
      exact .refuses hidle hc rfl rfl rfl
    | true =>
      simp only [hc, Bool.not_true, Bool.false_eq_true, if_false, Option.some.injEq] at h
      cases hframe : request.frame line.caller.client.max with
      | error error =>
        simp only [hframe] at h
        simp only [comes?, hidle, hc, hframe]
        refine stride_conclude h.symm rfl rfl hc fun heq => ?_
        cases heq
        exact request.frame_ne_closed hframe rfl
      | ok frame =>
        simp only [hframe] at h
        subst h
        simp only [comes?, hidle, hc, hframe]
        exact .sends hc trivial rfl rfl
  · cases h

theorem stride_breakOff (hs : line.caller.Sound capacity) {failure : Failure}
    (h : line.caller.breakOff failure = some caller) :
    line.Stride (some (.error (.frame (.failed failure)))) { line with caller } := by
  have hplaces := hs.places
  unfold Caller.breakOff at h
  split at h
  · next ha =>
    cases h
    rw [ha] at hplaces
    exact stride_conclude rfl rfl rfl hplaces.1 nofun
  · cases h

theorem stride_push (hs : line.caller.Sound capacity) {n : Nat}
    (h : line.push n = some next) : line.Stride (line.comes? (.push n)) next := by
  have hplaces := hs.places
  unfold push at h
  split at h
  · next request byte left ha =>
    rw [ha] at hplaces
    split at h
    · next hcut =>
      obtain ⟨caller, hbreak, rfl⟩ := Option.map_eq_some_iff.mp h
      simp only [comes?, ha, hcut]
      exact stride_breakOff hs hbreak
    · next hcut =>
      obtain ⟨⟨caller, bytes⟩, hpush, rfl⟩ := Option.map_eq_some_iff.mp h
      have hcut : line.responses.cut = false := Bool.eq_false_iff.mpr hcut
      simp only [comes?, ha, hcut]
      simp only [Caller.push, ha] at hpush
      split at hpush
      · cases hpush
      · cases hpush
        exact .sends hplaces.1 trivial rfl rfl
  · next hne =>
    obtain ⟨⟨caller, bytes⟩, hpush, rfl⟩ := Option.map_eq_some_iff.mp h
    unfold Caller.push at hpush
    split at hpush
    · next ha =>
      cases hpush
      rw [ha] at hplaces
      simp only [comes?, ha]
      exact .sends hplaces.1 trivial rfl rfl
    · next request left hnil ha =>
      -- Bytes that are left were the case before.
      cases left with
      | nil => exact absurd rfl hnil
      | cons byte left => exact absurd ha (hne request byte left)
    · cases hpush

theorem stride_turn (hs : line.caller.Sound capacity) (hf : line.caller.intake.Frank)
    (h : line.caller.turn = some caller) (hnext : next.caller = caller) :
    line.Stride (line.comes? .owner) next := by
  have hplaces := hs.places
  cases hs.turn_of_turn h with
  | goes hstep =>
    have hnone : line.comes? .owner = none := by
      have hturn : line.caller.intake.ownerTurn = some (_, none) := hstep
      simp only [comes?, hturn]
      split <;> rfl
    rw [hnone]
    exact .stays (by rw [hnext]) (by rw [hnext]) (by rw [hnext])
  | @told request intake report ha hstep =>
    have hsome : line.comes? .owner = some report := by
      have hturn : line.caller.intake.ownerTurn = some (_, some report) := hstep
      simp only [comes?, ha, hturn]
      rfl
    obtain ⟨-, hne⟩ := hf.step hs.intake hstep
    rw [ha] at hplaces
    rw [hsome]
    exact stride_conclude hnext rfl rfl hplaces.1 fun heq => hne (congrArg some heq)
  | @parts request error intake ha hstep =>
    have hnone : line.comes? .owner = none := by
      simp only [comes?, ha]
    rw [hnone]
    exact .parts ha (by rw [hnext]) (by rw [hnext]) (by rw [hnext])

/-- **A move makes one of these strides.** -/
theorem stride_of_step (hs : line.caller.Sound capacity) (hf : line.caller.intake.Frank)
    (h : line.step action = some next) : line.Stride (line.comes? action) next := by
  cases action with
  | send request =>
    obtain ⟨caller, hask, rfl⟩ := Option.map_eq_some_iff.mp h
    exact stride_ask hask
  | push n => exact stride_push hs h
  | refuse failure =>
    simp only [step] at h
    split at h
    · next hk =>
      cases h
      have hnone : line.comes? (.refuse failure) = none := by
        simp only [comes?, hk, if_true]
        split <;> rfl
      rw [hnone]
      exact .stays rfl rfl rfl
    · next hk =>
      obtain ⟨caller, hbreak, rfl⟩ := Option.map_eq_some_iff.mp h
      have hcomes : line.comes? (.refuse failure) =
          some (.error (.frame (.failed failure))) := by
        unfold Caller.breakOff at hbreak
        split at hbreak
        · next ha => simp only [comes?, ha, hk, if_false]
        · cases hbreak
      rw [hcomes]
      exact stride_breakOff hs hbreak
  | deliver bytes =>
    obtain ⟨responses, -, rfl⟩ := Option.map_eq_some_iff.mp h
    exact .stays rfl rfl rfl
  | hangUp | close =>
    cases h
    exact .stays rfl rfl rfl
  | pull n =>
    obtain ⟨bytes, intake, responses, -, -, -, rfl⟩ := exists_of_pull h
    exact .stays rfl rfl rfl
  | fail failure =>
    obtain ⟨intake, -, rfl⟩ := Option.map_eq_some_iff.mp h
    exact .stays rfl rfl rfl
  | pump =>
    obtain ⟨intake, -, rfl⟩ := Option.map_eq_some_iff.mp h
    exact .stays rfl rfl rfl
  | owner =>
    obtain ⟨caller, responses, hturn, -, -, rfl⟩ := exists_of_turn h
    exact stride_turn hs hf hturn rfl

end Line

/-! ## What a move does to the connection -/

namespace Caller

variable {caller caller' : Caller} {request : Message}

theorem frank_conclude (h : caller.intake.Frank) (request : Message) (report : Report) :
    (caller.conclude request report).intake.Frank := by
  cases hr : Client.responseOf report with
  | ok response =>
    rw [conclude_of_ok hr]
    exact h
  | error error =>
    rw [conclude_of_error hr]
    exact Intake.frank_of_owner id nofun

theorem frank_ask (h : caller.intake.Frank) (ha : caller.ask request = some caller') :
    caller'.intake.Frank := by
  unfold ask at ha
  split at ha
  · simp only [Option.some.injEq] at ha
    split at ha
    · subst ha
      exact h
    · split at ha
      · subst ha
        exact frank_conclude h request _
      · subst ha
        exact h
  · cases ha

theorem frank_push {n : Nat} {bytes : List UInt8} (h : caller.intake.Frank)
    (hp : caller.push n = some (caller', bytes)) : caller'.intake.Frank := by
  unfold push at hp
  split at hp
  · cases hp
    exact Intake.frank_of_owner id nofun
  · split at hp
    · cases hp
    · cases hp
      exact h
  · cases hp

theorem frank_breakOff {failure : Failure} (h : caller.intake.Frank)
    (hb : caller.breakOff failure = some caller') : caller'.intake.Frank := by
  unfold breakOff at hb
  split at hb
  · cases hb
    exact frank_conclude h _ _
  · cases hb

end Caller

namespace Line

variable {line next : Line} {action : Action} {capacity : Nat}

/-- **Every move keeps the connection frank.** -/
theorem frank_of_step (hs : line.caller.Sound capacity) (hf : line.caller.intake.Frank)
    (h : line.step action = some next) : next.caller.intake.Frank := by
  cases turn_of_step h with
  | asks ha => exact Caller.frank_ask hf ha
  | writes hp => exact Caller.frank_push hf hp
  | breaks hb => exact Caller.frank_breakOff hf hb
  | sockets => exact hf
  | pulls _ _ ha | fails ha => exact (hf.step hs.intake (Intake.step_arrive ha)).1
  | pumps hp => exact (hf.step hs.intake (Intake.step_pump hp)).1
  | turns ht =>
    cases hs.turn_of_turn ht with
    | goes hstep | parts _ hstep => exact (hf.step hs.intake hstep).1
    | told _ hstep => exact Caller.frank_conclude (hf.step hs.intake hstep).1 _ _

theorem idle_of_step (hidle : line.caller.asking = .idle)
    (hsend : ∀ request, action ≠ .send request) (h : line.step action = some next) :
    ∃ intake, next.caller = { line.caller with intake } ∧
      (intake = line.caller.intake ∨
        ∃ move report, line.caller.intake.step move = some (intake, report)) := by
  cases turn_of_step h with
  | asks => exact absurd rfl (hsend _)
  | writes hp => simp [Caller.push, hidle] at hp
  | breaks hb => simp [Caller.breakOff, hidle] at hb
  | sockets => exact ⟨line.caller.intake, rfl, .inl rfl⟩
  | pulls _ _ ha | fails ha => exact ⟨_, rfl, .inr ⟨_, _, Intake.step_arrive ha⟩⟩
  | pumps hp => exact ⟨_, rfl, .inr ⟨_, _, Intake.step_pump hp⟩⟩
  | turns ht =>
    simp only [Caller.turn, Option.bind_eq_bind, Option.bind_eq_some_iff, Option.pure_def,
      Option.some.injEq] at ht
    obtain ⟨⟨intake, report⟩, hturn, rfl⟩ := ht
    refine ⟨intake, ?_, .inr ⟨.owner, report, hturn⟩⟩
    simp only [hidle]

end Line

end Parley
