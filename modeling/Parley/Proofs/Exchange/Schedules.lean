import Parley.Proofs.Exchange.Completion
import Parley.Proofs.Exchange.Stages

/-!
# Exchanges on every schedule

As long as no operation of a socket fails, it makes no difference in which order the threads of a
`Dialogue` take their turns, nor how many bytes its sockets take and bring at a time.

**Theorem (`Dialogue.answers_settled`).** After every run without failures the client's sends have
come to what the same sends come to in an exchange, errors included, and so has what the handler
keeps.

**Theorem (`Dialogue.send_settles`).** After every such run the client's next send inevitably comes
to what it comes to in the exchange.
-/

namespace Parley

open Transport (Intake)

variable {σ : Type}

namespace Dialogue

variable {handler : Handler σ} {capacity serverCapacity room serverRoom : Nat}
  {max serverMax : UInt32} {start : Exchange σ} {dialogue next : Dialogue σ}

/-- No operation of a socket fails but by an interruption, and nobody closes the connection from
elsewhere. -/
def Action.Harmless : Action → Prop
  | send _ | push .. | pull .. | pump _ | owner _ => True
  | refuse _ failure | fail _ failure => failure.kind = .interrupted
  | close _ => False

/-- **Every move leads on to the same results.** -/
theorem Settled.turn {action : Action}
    (h : dialogue.Settled handler capacity serverCapacity max serverMax start)
    (hs : dialogue.Steady capacity serverCapacity room serverRoom) (hh : action.Harmless)
    (ht : dialogue.Turn action next) :
    next.Settled handler capacity serverCapacity max serverMax start := by
  have hsame := h
  obtain ⟨exchange, requests, responses, hsent, h⟩ := h
  cases ht with
  | asks ha => exact h.asks hsent ha
  | callerWrites hp hw => exact h.callerWrites hsent hs hp hw
  | callerMeets hb hw => exact h.callerMeets hsent hs hb hw
  | workerWrites hp hw => exact h.workerWrites hsent hs hp hw
  | workerMeets hb hw => exact h.workerMeets hsent hs hb hw
  | interrupted => exact hsame
  | callerBreaks hk | workerBreaks hk => exact absurd hh hk
  | pulls hn hr ha => exact h.pulls hsent hs hn hr ha
  | @fails side failure intake ha =>
    have hkept : intake = dialogue.intake side := by
      cases Intake.arrives_of_arrive ha with
      | interrupted => rfl
      | failed _ hk => exact absurd hh hk
    rw [hkept]
    cases side <;> exact hsame
  | pumps hp => exact h.pumps hsent hp
  | callerTurns ht => exact h.callerTurns hsent hs ht (.refl _) (.refl _) fun _ => rfl
  | @callerShuts caller ht hshut =>
    have hsound := hs.caller.turn ht
    have hgone := (hsound.intake.shut.mp hshut).not_present
    refine h.callerTurns hsent hs ht ⟨rfl, fun _ => by simp [Wire.isOpen]⟩
      ⟨rfl, fun _ => by simp [Wire.isOpen]⟩ fun hc => ?_
    exact absurd (hsound.places.present_iff.mpr hc) hgone
  | workerTurns ht => exact h.workerTurns hsent hs ht (.refl _) (.refl _) fun _ => rfl
  | @workerShuts worker ht hshut =>
    have hsound := hs.worker.step (Worker.step_of_turn ht)
    have hgone := (hsound.intake.shut.mp hshut).not_present
    refine h.workerTurns hsent hs ht ⟨rfl, fun _ => by simp [Wire.isOpen]⟩
      ⟨rfl, fun _ => by simp [Wire.isOpen]⟩ fun hactive => ?_
    exact absurd (hsound.fits.present_iff.mpr hactive) hgone
  | closes => cases hh

theorem Settled.run {actions : List Action}
    (h : dialogue.Settled handler capacity serverCapacity max serverMax start)
    (hs : dialogue.Steady capacity serverCapacity room serverRoom)
    (hh : ∀ action ∈ actions, action.Harmless) (hrun : dialogue.run actions = some next) :
    next.Settled handler capacity serverCapacity max serverMax start := by
  have hboth := run_turn (P := fun next =>
    next.Settled handler capacity serverCapacity max serverMax start ∧
      next.Steady capacity serverCapacity room serverRoom)
    (fun ⟨h, hs⟩ hm ht => ⟨h.turn hs (hh _ hm) ht, hs.turn ht⟩) ⟨h, hs⟩ hrun
  exact hboth.1

theorem settled_start? {state : σ} {config serverConfig : Config}
    (hs : Transport.setUp serverConfig = .ok ())
    (h : start? handler state config serverConfig room serverRoom = some dialogue) :
    dialogue.Settled handler config.bufferCapacity serverConfig.bufferCapacity config.maxFrameSize
      serverConfig.maxFrameSize (.start config serverConfig state) := by
  simp only [start?, Option.bind_eq_bind, Option.bind_eq_some_iff, Option.pure_def,
    Option.some.injEq] at h
  obtain ⟨caller, hcaller, worker, hworker, rfl⟩ := h
  obtain ⟨intake, hintake, rfl⟩ := Option.map_eq_some_iff.mp hcaller
  obtain ⟨served, hserved, rfl⟩ := Option.map_eq_some_iff.mp hworker
  have hreading := (Intake.tracks_ofConfig? hserved).read (Intake.ofConfig?_fresh hserved).2
  exact ⟨_, [], [], .none, rfl, rfl, fun _ => ⟨[], none, hreading, rfl, .inl rfl⟩,
    fun _ => ⟨[], none, Intake.tracks_ofConfig? hintake, rfl, .inl rfl⟩,
    .quiet rfl rfl (.inl rfl) rfl rfl rfl (Exchange.start_eq_ready hs state)⟩

/-- **The results do not depend on the schedule.** Let a client with valid settings be connected to
a server whose settings its sockets take, with any handler, over wires of any capacity. After every
run without failures, whatever the order of the threads and however many bytes are written and read
at a time, the client has been told what its requests come to when they are sent one after the
other in an exchange. And when it is in the middle of none, the handler keeps what it keeps there,
and the client has its connection just if it has it there. -/
theorem answers_settled (handler : Handler σ) (state : σ) {config serverConfig : Config}
    (hc : config.validate = .ok ()) (hs : Transport.setUp serverConfig = .ok ())
    (requests responses : Nat) :
    ∃ start, start? handler state config serverConfig requests responses = some start ∧
      ∀ actions dialogue, (∀ action ∈ actions, action.Harmless) →
        start.run actions = some dialogue →
        let answered := dialogue.caller.answered
        let first := Exchange.start config serverConfig state
        answered.map Prod.snd =
            Exchange.sendAll (Exchange.send handler) first (answered.map Prod.fst) ∧
          ∃ last, Exchange.Sent handler first answered last ∧
            (dialogue.caller.asking = .idle →
              last.client.connected = dialogue.caller.client.connected ∧
                last.state = dialogue.worker.state) := by
  obtain ⟨start, hstart, -⟩ :=
    exists_start? handler state hc (Transport.validate_of_setUp hs) requests responses
  refine ⟨start, hstart, ?_⟩
  intro actions dialogue hh hrun answered first
  obtain ⟨last, toWorker, toClient, hsent, h⟩ :=
    (settled_start? hs hstart).run (steady_start? hstart) hh hrun
  have hall := hsent.sendAll []
  rw [List.append_nil, Exchange.sendAll, List.append_nil] at hall
  refine ⟨hall.symm, last, hsent, fun hidle => ?_⟩
  cases h.stage with
  | quiet hc _ _ _ _ _ hx =>
    obtain rfl := hx
    exact ⟨hc.symm, rfl⟩
  | lost hc _ _ hx hk => exact ⟨hx.trans hc.symm, hk⟩
  | asked _ ha | answering _ ha | refusing _ ha =>
    rw [hidle] at ha
    cases ha
  | leaving _ ha =>
    rw [hidle] at ha
    cases ha

theorem Action.IsParty.harmless {action : Action} (h : action.IsParty) : action.Harmless := by
  cases action with
  | push | pull | pump | owner => trivial
  | send | refuse | fail | close => cases h

/-- **A send comes to what it comes to in an exchange**, on every schedule: over wires that hold a
byte or more each, after every run without failures in which the client has come to the end of its
sends, its next send inevitably has the result that the next one in the exchange has. -/
theorem send_settles (handler : Handler σ) (state : σ) {config serverConfig : Config}
    (hc : config.validate = .ok ()) (hs : Transport.setUp serverConfig = .ok ())
    {requests responses : Nat} (hq : 0 < requests) (hr : 0 < responses) :
    ∃ start, start? handler state config serverConfig requests responses = some start ∧
      ∀ actions dialogue, (∀ action ∈ actions, action.Harmless) →
        start.run actions = some dialogue → dialogue.caller.asking = .idle →
        let answered := dialogue.caller.answered
        ∃ last, Exchange.Sent handler (.start config serverConfig state) answered last ∧
          ∀ request next, dialogue.step (.send request) = some next →
            Inevitable Advances (fun next => next.caller.asking = .idle ∧
              next.caller.answered = answered ++ [(request, (last.send handler request).1)])
              next := by
  obtain ⟨start, hstart, -, hcorrelated⟩ :=
    exists_start? handler state hc (Transport.validate_of_setUp hs) requests responses
  refine ⟨start, hstart, ?_⟩
  intro actions dialogue hh hrun hidle answered
  have hsteady := (steady_start? hstart).run hrun
  have hsettled := (settled_start? hs hstart).run (steady_start? hstart) hh hrun
  obtain ⟨last, -, -, hsent, -⟩ := id hsettled
  refine ⟨last, hsent, fun request next hstep => ?_⟩
  have ht := turn_of_step hstep
  have hsend : (Action.send request).Harmless := trivial
  have hinevitable := inevitable_of_send (hcorrelated.run hrun) hsteady hq hr hstep
  -- The steps up to the result keep what makes it that of the exchange.
  refine (hinevitable.and_inv (fun next => next.Settled handler config.bufferCapacity
      serverConfig.bufferCapacity config.maxFrameSize serverConfig.maxFrameSize
      (.start config serverConfig state) ∧
      next.Steady config.bufferCapacity serverConfig.bufferCapacity requests responses)
    ?_ ⟨hsettled.turn hsteady hsend ht, hsteady.turn ht⟩).mono ?_
  · rintro dialogue next ⟨hsettled, hsteady⟩ ⟨action, hparty, -, hstep⟩
    have ht := turn_of_step hstep
    exact ⟨hsettled.turn hsteady hparty.harmless ht, hsteady.turn ht⟩
  · rintro next ⟨⟨hidle, result, hanswered⟩, ⟨after, -, -, hafter, -⟩, -⟩
    refine ⟨hidle, ?_⟩
    rw [hanswered] at hafter ⊢
    rw [hafter.result_eq hsent]

end Dialogue

end Parley
