import Parley.Proofs.Client.Weight
import Parley.Proofs.Exchange.Progress
import Parley.Proofs.Server.Worker

/-!
# Sends come to their end

In the middle of a send somebody can always go on (`Dialogue.never_stuck`). That is not yet that
the send comes to its end: the threads might go on for ever without it.

**Why they do not.** Every step makes the two ends and what is on its way lighter
(`Dialogue.weight`), with one exception: a worker that hands a request to the handler gets a
response of any length to write. But it hands over each request once, and there are no more of them
than the client was asked to send (`Dialogue.Correlated.length_handled_le`).

**Theorem (`Dialogue.sends_complete`).** After every run, whatever failed in it, a send that the
client is in the middle of inevitably comes to its result. The induction is on the requests that
have not been handed over, and between two of them on the weight.
-/

namespace Parley

open Transport (Intake Owner)

variable {σ : Type}

/-! ## Weight -/

namespace Caller

variable {caller caller' : Caller} {request : Message} {bytes : List UInt8}

/-- The client goes on with a request, or comes to its result. -/
def GoesOn (request : Message) (caller caller' : Caller) : Prop :=
  caller'.answered = caller.answered ∧ caller'.asking.request? = some request ∨
    caller'.asking = .idle ∧ ∃ result, caller'.answered = caller.answered ++ [(request, result)]

theorem goesOn_conclude (caller : Caller) (request : Message) (report : Report) :
    caller.GoesOn request (caller.conclude request report) := by
  rcases caller.exists_conclude request report with ⟨response, -, heq⟩ | ⟨error, heq⟩
  · rw [heq]
    exact .inr ⟨rfl, _, rfl⟩
  · rw [heq]
    exact .inl ⟨rfl, rfl⟩

theorem goesOn_ask (h : caller.ask request = some caller') : caller.GoesOn request caller' := by
  unfold Caller.ask at h
  split at h
  · next hidle =>
    obtain rfl := Option.some.inj h
    split
    · exact .inr ⟨hidle, _, rfl⟩
    · split
      · exact caller.goesOn_conclude _ _
      · exact .inl ⟨rfl, rfl⟩
  · cases h

theorem goesOn_push {n : Nat} (ha : caller.asking.request? = some request)
    (hp : caller.push n = some (caller', bytes)) : caller.GoesOn request caller' := by
  unfold Caller.push at hp
  split at hp
  · next hasking =>
    cases hp
    rw [hasking] at ha
    exact .inl ⟨rfl, ha⟩
  · next hasking =>
    split at hp
    · cases hp
    · cases hp
      rw [hasking] at ha
      exact .inl ⟨rfl, ha⟩
  · cases hp

theorem goesOn_breakOff {failure : Failure} (ha : caller.asking.request? = some request)
    (hb : caller.breakOff failure = some caller') : caller.GoesOn request caller' := by
  unfold Caller.breakOff at hb
  split at hb
  · next hasking =>
    obtain rfl := Option.some.inj hb
    rw [hasking] at ha
    cases ha
    exact caller.goesOn_conclude _ _
  · cases hb

theorem Turn.goesOn (h : caller.Turn caller') (ha : caller.asking.request? = some request) :
    caller.GoesOn request caller' := by
  cases h with
  | goes => exact .inl ⟨rfl, ha⟩
  | @told request' intake report hasking =>
    rw [hasking] at ha
    cases ha
    have hconclude := goesOn_conclude { caller with intake } request report
    exact hconclude
  | parts hasking =>
    rw [hasking] at ha
    cases ha
    exact .inr ⟨rfl, _, rfl⟩

end Caller

namespace Worker

variable {worker worker' : Worker σ} {capacity : Nat} {bytes : List UInt8}

def weight (worker : Worker σ) : Nat := worker.intake.weight + worker.serving.weight

theorem weight_quit (ho : worker.intake.owner = .idle) (status : ServiceStatus) :
    (worker.quit status).weight = worker.intake.weight + 4 := by
  have hleaves := Intake.weight_owner ho .leaving
  simp only [weight, quit, hleaves, Serving.weight, Owner.weight]

theorem Sound.weight_push (h : worker.Sound capacity) {n : Nat}
    (hp : worker.push n = some (worker', bytes)) :
    worker'.weight + 5 * bytes.length < worker.weight := by
  have hfits := h.fits
  unfold Worker.push at hp
  split at hp
  · next hs =>
    rw [hs] at hfits
    cases hp
    have hreads := Intake.weight_owner hfits (.reading .start)
    simp only [weight, hreads, hs, Serving.weight, Owner.weight, List.length_nil]
    omega
  · next left hne hs =>
    split at hp
    · cases hp
    · cases hp
      have hpos := List.length_pos_iff.mpr hne
      simp only [weight, hs, Serving.weight, List.length_take, List.length_drop]
      omega
  · cases hp

theorem Sound.weight_breakOff (h : worker.Sound capacity) {failure : Failure}
    (hb : worker.breakOff failure = some worker') : worker'.weight < worker.weight := by
  have hfits := h.fits
  unfold Worker.breakOff at hb
  split at hb
  · next left hs =>
    rw [hs] at hfits
    obtain rfl := Option.some.inj hb
    rw [weight_quit hfits]
    simp only [weight, hs, Serving.weight]
    omega
  · cases hb

theorem length_handled_take (worker : Worker σ) (report : Report) :
    worker.handled.length ≤ (worker.take report).handled.length := by
  match report with
  | .ok none | .error _ => exact Nat.le_refl _
  | .ok (some request) =>
    obtain ⟨reply, next, -, hhandle⟩ := worker.exists_handle request
    rw [take]
    rcases hhandle with ⟨response, -, heq⟩ | ⟨-, status, heq⟩
    · rw [heq]
      simp
    · rw [heq]
      simp [quit]

theorem Sound.length_handled_step {move : Move} (h : worker.Sound capacity)
    (hs : worker.step move = some (worker', bytes)) :
    worker.handled.length ≤ worker'.handled.length := by
  cases turn_of_step h.intake h.fits hs with
  | goes | writes | reads | ends => exact Nat.le_refl _
  | @told intake report => exact length_handled_take { worker with intake } report

/-- A turn of the worker makes it lighter, unless it hands a request to the handler. -/
theorem Sound.weight_turn (h : worker.Sound capacity)
    (hawake : worker.intake.pair.buffer.reader ≠ .waiting) (ht : worker.turn = some worker') :
    worker'.weight < worker.weight ∨ worker.handled.length < worker'.handled.length := by
  have hlt : ∀ {intake : Intake} {report : Option Report},
      worker.intake.step .owner = some (intake, report) → intake.weight < worker.intake.weight :=
    fun hstep => (Intake.turn_of_ownerTurn h.intake.owner h.intake.within hstep).weight_lt hawake
  cases turn_of_step h.intake h.fits (step_of_turn ht) with
  | goes hm hstep =>
    cases hm
    exact .inl (Nat.add_lt_add_right (hlt hstep) _)
  | @told intake report hs hstep ho =>
    have hlighter := hlt hstep
    have hidle : ({ worker with intake } : Worker σ).intake.owner = .idle := ho
    match report with
    | .ok none | .error _ =>
      refine .inl ?_
      rw [take, weight_quit hidle]
      simp only [weight, hs, Serving.weight]
      omega
    | .ok (some request) =>
      refine .inr ?_
      obtain ⟨reply, next, -, hhandle⟩ := exists_handle { worker with intake } request
      rw [take]
      rcases hhandle with ⟨response, -, heq⟩ | ⟨-, status, heq⟩
      · rw [heq]
        simp
      · rw [heq]
        simp [quit]
  | ends hs hstep =>
    have hlighter := hlt hstep
    refine .inl ?_
    simp only [weight, hs, Serving.weight]
    omega

end Worker

/-! ## Both ends -/

namespace Dialogue

variable {dialogue next : Dialogue σ} {capacity serverCapacity room serverRoom : Nat}
  {max : UInt32} {ledger : Ledger} {action : Action} {request : Message}
  {past : List (Message × Except TransportError Message)}

/-- A thread that does not wait, or a socket, takes a step. -/
def Advances (dialogue next : Dialogue σ) : Prop :=
  ∃ action : Action, action.IsParty ∧ dialogue.awake action = true ∧
    dialogue.step action = some next

def weight (dialogue : Dialogue σ) : Nat :=
  dialogue.caller.weight + dialogue.worker.weight +
    5 * (dialogue.requests.held.length + dialogue.responses.held.length)

/-- **Every step makes the ends lighter**, or hands a request to the handler. -/
theorem Turn.weight_lt (ht : dialogue.Turn action next) (hparty : action.IsParty)
    (ha : dialogue.awake action = true)
    (hs : dialogue.Steady capacity serverCapacity room serverRoom) :
    next.weight < dialogue.weight ∨
      dialogue.worker.handled.length < next.worker.handled.length := by
  cases ht with
  | asks | interrupted | callerBreaks | workerBreaks | fails | closes => cases hparty
  | callerWrites hp hw =>
    have hlt := hs.caller.weight_push hp
    simp only [weight, hw.held, List.length_append]
    omega
  | callerMeets hb =>
    have hlt := hs.caller.weight_breakOff hb
    simp only [weight]
    omega
  | workerWrites hp hw =>
    have hlt := hs.worker.weight_push hp
    simp only [weight, hw.held, List.length_append]
    omega
  | workerMeets hb =>
    have hlt := hs.worker.weight_breakOff hb
    simp only [weight]
    omega
  | @pulls side _ _ wire intake _ hr harrive =>
    have hlt := Intake.weight_pull hr harrive
    cases side with
    | client =>
      have hlt : intake.weight + 5 * wire.held.length <
        dialogue.caller.intake.weight + 5 * dialogue.responses.held.length := hlt
      simp only [weight, Caller.weight, setIntake, setIncoming]
      omega
    | server =>
      have hlt : intake.weight + 5 * wire.held.length <
        dialogue.worker.intake.weight + 5 * dialogue.requests.held.length := hlt
      simp only [weight, Worker.weight, setIntake, setIncoming]
      omega
  | @pumps side intake hpump =>
    have hlt := (Intake.turn_of_pumpTurn hpump).weight_lt (by simpa [awake, Intake.awake] using ha)
    cases side with
    | client =>
      have hlt : intake.weight < dialogue.caller.intake.weight := hlt
      simp only [weight, Caller.weight, setIntake]
      omega
    | server =>
      have hlt : intake.weight < dialogue.worker.intake.weight := hlt
      simp only [weight, Worker.weight, setIntake]
      omega
  | callerTurns ht | callerShuts ht =>
    have hlt := hs.caller.weight_turn (by simpa [awake, intake, Intake.awake] using ha) ht
    simp only [weight, shutDown]
    omega
  | workerTurns ht | workerShuts ht =>
    have hlt := hs.worker.weight_turn (by simpa [awake, intake, Intake.awake] using ha) ht
    simp only [weight, shutDown]
    omega

theorem Turn.length_handled_le (ht : dialogue.Turn action next)
    (hs : dialogue.Steady capacity serverCapacity room serverRoom) :
    dialogue.worker.handled.length ≤ next.worker.handled.length := by
  cases ht.acts with
  | asks | callerWrites | callerBreaks | callerGoes | callerTurns | sockets => exact Nat.le_refl _
  | workerSteps hstep => exact hs.worker.length_handled_step hstep
  | workerBreaks hb =>
    unfold Worker.breakOff at hb
    split at hb
    · obtain rfl := Option.some.inj hb
      exact Nat.le_refl _
    · cases hb

theorem Turn.goesOn (ht : dialogue.Turn action next) (hparty : action.IsParty)
    (hs : dialogue.Steady capacity serverCapacity room serverRoom)
    (ha : dialogue.caller.asking.request? = some request) :
    dialogue.caller.GoesOn request next.caller := by
  cases ht with
  | asks | interrupted | callerBreaks | workerBreaks | fails | closes => cases hparty
  | callerWrites hp => exact Caller.goesOn_push ha hp
  | callerMeets hb => exact Caller.goesOn_breakOff ha hb
  | workerWrites | workerMeets | workerTurns | workerShuts => exact .inl ⟨rfl, ha⟩
  | @pulls side =>
    cases side with
    | client => exact .inl ⟨rfl, ha⟩
    | server => exact .inl ⟨rfl, ha⟩
  | @pumps side =>
    cases side with
    | client => exact .inl ⟨rfl, ha⟩
    | server => exact .inl ⟨rfl, ha⟩
  | callerTurns ht | callerShuts ht => exact (hs.caller.turn_of_turn ht).goesOn ha

theorem Correlated.length_handled_le
    (h : dialogue.Correlated capacity serverCapacity max ledger) :
    dialogue.worker.handled.length ≤ dialogue.caller.asked.length := by
  rw [h.handled_eq]
  exact h.balanced.length_handled_le.trans h.begun_prefix.length_le

/-! ## The end of a send -/

/-- The client is in the middle of a request, with these results behind it. -/
structure Sends (capacity serverCapacity room serverRoom : Nat) (max : UInt32)
    (past : List (Message × Except TransportError Message)) (request : Message)
    (dialogue : Dialogue σ) : Prop where
  correlated : ∃ ledger, dialogue.Correlated capacity serverCapacity max ledger
  steady : dialogue.Steady capacity serverCapacity room serverRoom
  answered : dialogue.caller.answered = past
  asking : dialogue.caller.asking.request? = some request

/-- The client has come to a result of the request. -/
def Returns (past : List (Message × Except TransportError Message)) (request : Message)
    (dialogue : Dialogue σ) : Prop :=
  dialogue.caller.asking = .idle ∧
    ∃ result, dialogue.caller.answered = past ++ [(request, result)]

theorem Sends.advances (h : dialogue.Sends capacity serverCapacity room serverRoom max past request)
    (ha : dialogue.Advances next) :
    (next.Sends capacity serverCapacity room serverRoom max past request ∨
        next.Returns past request) ∧
      (next.weight < dialogue.weight ∨
        dialogue.worker.handled.length < next.worker.handled.length) ∧
      dialogue.worker.handled.length ≤ next.worker.handled.length := by
  obtain ⟨action, hparty, hawake, hstep⟩ := ha
  obtain ⟨ledger, hcorrelated⟩ := h.correlated
  have ht := turn_of_step hstep
  refine ⟨?_, ht.weight_lt hparty hawake h.steady, ht.length_handled_le h.steady⟩
  rcases ht.goesOn hparty h.steady h.asking with ⟨hanswered, hasking⟩ | ⟨hidle, result, hresult⟩
  · exact .inl ⟨hcorrelated.acts ht.acts, h.steady.turn ht, hanswered.trans h.answered, hasking⟩
  · exact .inr ⟨hidle, result, h.answered ▸ hresult⟩

theorem Sends.length_handled_le
    (h : dialogue.Sends capacity serverCapacity room serverRoom max past request) :
    dialogue.worker.handled.length ≤ past.length + 1 := by
  obtain ⟨ledger, hcorrelated⟩ := h.correlated
  have hle := hcorrelated.length_handled_le
  simpa [Caller.asked, h.answered, h.asking] using hle

/-- In the middle of a send the next step that hands a request over is inevitable, or the end of
the send is. -/
theorem Sends.hands (h : dialogue.Sends capacity serverCapacity room serverRoom max past request)
    (hq : 0 < room) (hr : 0 < serverRoom) :
    Inevitable Advances (fun next => next.Returns past request ∨
      next.Sends capacity serverCapacity room serverRoom max past request ∧
        dialogue.worker.handled.length < next.worker.handled.length) dialogue := by
  refine inevitable_of_weight weight (fun state =>
    state.Sends capacity serverCapacity room serverRoom max past request ∧
      dialogue.worker.handled.length ≤ state.worker.handled.length) ?_ ?_ ⟨h, Nat.le_refl _⟩
  · rintro state ⟨hsends, -⟩
    obtain ⟨ledger, hcorrelated⟩ := hsends.correlated
    have hbusy : state.caller.asking ≠ .idle := by
      intro hidle
      have hasking := hsends.asking
      rw [hidle] at hasking
      cases hasking
    obtain ⟨action, next, hmove⟩ := hcorrelated.canMove hsends.steady hq hr (.inl hbusy)
    exact .inr ⟨next, action, hmove⟩
  · rintro state next ⟨hsends, hle⟩ hadvance
    obtain ⟨hnext | hreturns, hlighter, hmore⟩ := hsends.advances hadvance
    · rcases hlighter with hlt | hgrew
      · exact .inr ⟨⟨hnext, hle.trans hmore⟩, hlt⟩
      · exact .inl (.inr ⟨hnext, Nat.lt_of_le_of_lt hle hgrew⟩)
    · exact .inl (.inl hreturns)

/-- **A send comes to its result**; the induction is on the requests that have not been handed
over. -/
theorem Sends.inevitable
    (h : dialogue.Sends capacity serverCapacity room serverRoom max past request)
    (hq : 0 < room) (hr : 0 < serverRoom) :
    Inevitable Advances (Returns past request) dialogue := by
  generalize hn : past.length + 1 - dialogue.worker.handled.length = n
  induction n using Nat.strongRecOn generalizing dialogue with
  | ind n ih =>
    refine (h.hands hq hr).trans fun next hnext => ?_
    rcases hnext with hreturns | ⟨hsends, hgrew⟩
    · exact .now hreturns
    · have hle := hsends.length_handled_le
      exact ih _ (by omega) hsends rfl

theorem inevitable_of_send (h : ∃ ledger, dialogue.Correlated capacity serverCapacity max ledger)
    (hs : dialogue.Steady capacity serverCapacity room serverRoom) (hq : 0 < room)
    (hr : 0 < serverRoom) (hstep : dialogue.step (.send request) = some next) :
    Inevitable Advances (Returns dialogue.caller.answered request) next := by
  obtain ⟨ledger, h⟩ := h
  have ht := turn_of_step hstep
  obtain ⟨caller, hask, rfl⟩ := Option.map_eq_some_iff.mp hstep
  rcases Caller.goesOn_ask hask with ⟨hanswered, hasking⟩ | ⟨hidle, result, hresult⟩
  · exact Sends.inevitable ⟨h.acts ht.acts, hs.turn ht, hanswered, hasking⟩ hq hr
  · exact .now ⟨hidle, result, hresult⟩

theorem exists_run_of_inevitable {goal : Dialogue σ → Prop}
    (h : Inevitable Advances goal dialogue) :
    ∃ actions next, (∀ action ∈ actions, action.IsParty) ∧
      dialogue.run actions = some next ∧ goal next := by
  induction h with
  | @now dialogue hgoal => exact ⟨[], dialogue, nofun, rfl, hgoal⟩
  | later can _ ih =>
    obtain ⟨next, hnext⟩ := can
    obtain ⟨actions, last, hparty, hrun, hgoal⟩ := ih next hnext
    obtain ⟨action, haction, -, hstep⟩ := hnext
    refine ⟨action :: actions, last, List.forall_mem_cons.mpr ⟨haction, hparty⟩, ?_, hgoal⟩
    exact Option.bind_eq_some_iff.mpr ⟨next, hstep, hrun⟩

/-- **Sends come to their end.** Let a client with valid settings be connected to a worker with
valid settings and any handler, over wires that hold a byte or more each. After every run, with any
requests and failures, a send that the client is in the middle of inevitably comes to a result,
whichever of the threads and sockets that can take a step do so. -/
theorem sends_complete (handler : Handler σ) (state : σ) {config serverConfig : Config}
    (hc : config.validate = .ok ()) (hs : serverConfig.validate = .ok ()) {requests responses : Nat}
    (hq : 0 < requests) (hr : 0 < responses) :
    ∃ start, start? handler state config serverConfig requests responses = some start ∧
      ∀ actions dialogue request, start.run actions = some dialogue →
        dialogue.caller.asking.request? = some request →
        Inevitable Advances (Returns dialogue.caller.answered request) dialogue := by
  obtain ⟨start, hstart, -, hcorrelated⟩ := exists_start? handler state hc hs requests responses
  refine ⟨start, hstart, ?_⟩
  intro actions dialogue request hrun hasking
  have hsends : dialogue.Sends config.bufferCapacity serverConfig.bufferCapacity requests responses
      serverConfig.maxFrameSize dialogue.caller.answered request :=
    ⟨hcorrelated.run hrun, (steady_start? hstart).run hrun, rfl, hasking⟩
  exact hsends.inevitable hq hr

end Dialogue

end Parley
