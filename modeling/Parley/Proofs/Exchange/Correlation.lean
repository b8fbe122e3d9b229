import Parley.Proofs.Exchange.Ends

/-!
# Requests and responses correspond

Nothing in a frame says which request a response belongs to. That they correspond rests on the
order alone: the client waits for the response to a request before it sends the next one, the
worker answers a request before it reads the next one, and whoever meets a failure gives the
connection up.

**The invariant** (`Dialogue.Correlated`). A `Ledger` says which requests were begun, which
were handed to the handler and which were answered. Each of these is the beginning of the one
before, and at most one request is begun and not answered. What has been received, what the
wires hold and what has still to be written come to the frames of the messages that are
pending: of the requests begun and not yet handed over at the worker's end, and of the
responses given and not yet told at the client's end.

**Theorem (`Dialogue.correlated`).** After every run the answers are those of the first
requests, one after the other, and behind them only errors. The response to a request is what
the handler replied to it, and the handler was given the requests in order and once each.
-/

namespace Parley

open Transport (Intake)

variable {σ : Type} {ledger : Ledger} {max : UInt32} {capacity : Nat}

namespace Dialogue

variable {dialogue next : Dialogue σ} {serverCapacity : Nat}

/-- Both ends go along with one ledger, as long as they have not given the connection up. -/
structure Correlated (capacity serverCapacity : Nat) (max : UInt32) (ledger : Ledger)
    (dialogue : Dialogue σ) : Prop where
  balanced : ledger.Balanced max
  caller : dialogue.caller.InStep capacity max ledger dialogue.responses.held ∨
    dialogue.caller.HasQuit ledger
  worker : dialogue.worker.InStep serverCapacity max ledger dialogue.requests.held ∨
    dialogue.worker.HasQuit ledger

section Acts

variable (h : dialogue.Correlated capacity serverCapacity max ledger)
include h

theorem Correlated.asks {request : Message} {caller : Caller}
    (ha : dialogue.caller.ask request = some caller) :
    ∃ ledger, ({ dialogue with caller } : Dialogue σ).Correlated capacity serverCapacity max
      ledger := by
  rcases h.caller with hin | hquit
  · rcases hin.ask ha with hquit | ⟨hbegun, hleft, hfits, hnext⟩
    · exact ⟨ledger, h.balanced, .inr hquit, h.worker⟩
    · refine ⟨_, h.balanced.begin hbegun hfits _, .inl hnext, ?_⟩
      rcases h.worker with hworker | hworker
      · exact .inl (hworker.begin h.balanced hleft request)
      · exact .inr ⟨hworker.handled, hworker.stands⟩
  · exact ⟨ledger, h.balanced, .inr (hquit.ask ha), h.worker⟩

theorem Correlated.callerWrites {n : Nat} {caller : Caller} {bytes : List UInt8}
    {requests : Wire} (hp : dialogue.caller.push n = some (caller, bytes))
    (hq : requests.held = dialogue.requests.held ++ bytes) :
    ∃ ledger, ({ dialogue with caller, requests } : Dialogue σ).Correlated capacity
      serverCapacity max ledger := by
  rcases h.caller with hin | hquit
  · obtain ⟨left, hleft, hnext⟩ := hin.push hp
    refine ⟨_, h.balanced.write left ledger.responsesLeft, .inl hnext, ?_⟩
    rcases h.worker with hworker | hworker
    · exact .inl (hq ▸ hworker.wrote hleft)
    · exact .inr ⟨hworker.handled, hworker.stands⟩
  · rw [hquit.push] at hp
    cases hp

theorem Correlated.callerBreaks {failure : Failure} {caller : Caller}
    (hb : dialogue.caller.breakOff failure = some caller) :
    ∃ ledger, ({ dialogue with caller } : Dialogue σ).Correlated capacity serverCapacity max
      ledger := by
  rcases h.caller with hin | hquit
  · exact ⟨ledger, h.balanced, .inr (hin.breakOff hb), h.worker⟩
  · rw [hquit.breakOff] at hb
    cases hb

theorem Correlated.callerGoes {move : Transport.Move} {intake : Intake} {responses : Wire}
    (hs : dialogue.caller.intake.step move = some (intake, none))
    (ho : intake.owner = dialogue.caller.intake.owner)
    (hr : dialogue.responses.held = move.bytes ++ responses.held) :
    ∃ ledger, ({ dialogue with
      caller := { dialogue.caller with intake }, responses } : Dialogue σ).Correlated capacity
        serverCapacity max ledger := by
  refine ⟨ledger, h.balanced, ?_, h.worker⟩
  rcases h.caller with hin | hquit
  · rw [hr] at hin
    exact .inl (hin.goes hs ho)
  · exact .inr (hquit.goes intake)

theorem Correlated.callerTurns {caller : Caller} {requests responses : Wire}
    (ht : dialogue.caller.turn = some caller) (hq : requests.held = dialogue.requests.held)
    (hr : responses.held = dialogue.responses.held) :
    ∃ ledger, ({ dialogue with caller, requests, responses } : Dialogue σ).Correlated capacity
      serverCapacity max ledger := by
  have hworker := h.worker
  rw [← hq] at hworker
  rcases h.caller with hin | hquit
  · rw [← hr] at hin
    rcases hin.turn h.balanced ht with hnext | hquit | ⟨request, response, more, hbegun, hnext, hin⟩
    · exact ⟨ledger, h.balanced, .inl hnext, hworker⟩
    · exact ⟨ledger, h.balanced, .inr hquit, hworker⟩
    · refine ⟨_, h.balanced.answer hbegun hnext, .inl hin, ?_⟩
      rcases hworker with hworker | hworker
      · exact .inl ⟨hworker.max, hworker.handled, hworker.left, hworker.active, hworker.fits,
          hworker.expects⟩
      · exact .inr ⟨hworker.handled, hworker.stands⟩
  · exact ⟨ledger, h.balanced, .inr (hquit.turn ht), hworker⟩

theorem Correlated.workerSteps {move : Worker.Move} {worker : Worker σ} {bytes : List UInt8}
    {requests responses : Wire} (hs : dialogue.worker.step move = some (worker, bytes))
    (hq : dialogue.requests.held = move.bytes ++ requests.held)
    (hr : responses.held = dialogue.responses.held ++ bytes) :
    ∃ ledger, ({ dialogue with worker, requests, responses } : Dialogue σ).Correlated capacity
      serverCapacity max ledger := by
  rcases h.worker with hin | hquit
  · rw [hq] at hin
    rcases hin.step h.balanced hs with ⟨left, hleft, hnext⟩ | ⟨rfl, hquit | hhandled⟩
    · refine ⟨_, h.balanced.write ledger.requestsLeft left, ?_, .inl hnext⟩
      rcases h.caller with hcaller | hcaller
      · exact .inl (hr ▸ hcaller.wrote hleft)
      · exact .inr ⟨hcaller.disconnected, hcaller.stands, hcaller.answered, hcaller.begun⟩
    · rw [List.append_nil] at hr
      exact ⟨ledger, h.balanced, hr ▸ h.caller, .inr hquit⟩
    · obtain ⟨request, more, reply, hnext, hleft, hworker⟩ := hhandled
      rw [List.append_nil] at hr
      refine ⟨_, h.balanced.handle hnext reply _, ?_, hworker⟩
      rcases h.caller with hcaller | hcaller
      · rw [← hr] at hcaller
        exact .inl (hcaller.handle h.balanced hleft (request.rewind, reply))
      · exact .inr ⟨hcaller.disconnected, hcaller.stands, hcaller.answered, hcaller.begun⟩
  · obtain ⟨rfl, hnext⟩ := hquit.step hs
    rw [List.append_nil] at hr
    exact ⟨ledger, h.balanced, hr ▸ h.caller, .inr hnext⟩

theorem Correlated.workerBreaks {failure : Failure} {worker : Worker σ}
    (hb : dialogue.worker.breakOff failure = some worker) :
    ∃ ledger, ({ dialogue with worker } : Dialogue σ).Correlated capacity serverCapacity max
      ledger := by
  rcases h.worker with hin | hquit
  · exact ⟨ledger, h.balanced, h.caller, .inr (hin.breakOff hb)⟩
  · rw [hquit.breakOff] at hb
    cases hb

/-- **Every move goes along with a ledger.** -/
theorem Correlated.acts (ha : dialogue.Acts next) :
    ∃ ledger, next.Correlated capacity serverCapacity max ledger := by
  cases ha with
  | asks hask => exact h.asks hask
  | callerWrites hpush hq => exact h.callerWrites hpush hq
  | callerBreaks hbreak => exact h.callerBreaks hbreak
  | callerGoes hstep ho hr => exact h.callerGoes hstep ho hr
  | callerTurns hturn hq hr => exact h.callerTurns hturn hq hr
  | workerSteps hstep hq hr => exact h.workerSteps hstep hq hr
  | workerBreaks hbreak => exact h.workerBreaks hbreak
  | sockets hq hr => exact ⟨ledger, h.balanced, hr ▸ h.caller, hq ▸ h.worker⟩

theorem Correlated.handled_eq : dialogue.worker.handled = ledger.handled := by
  rcases h.worker with hworker | hworker
  · exact hworker.handled
  · exact hworker.handled

theorem Correlated.begun_prefix : ledger.begun <+: dialogue.caller.asked := by
  rcases h.caller with hin | hquit
  · rw [hin.begun, Caller.asked, hin.answered, List.map_map]
    exact List.prefix_refl _
  · exact hquit.begun

theorem Correlated.run {actions : List Action} (hrun : dialogue.run actions = some next) :
    ∃ ledger, next.Correlated capacity serverCapacity max ledger := by
  refine run_turn (P := fun next => ∃ ledger, next.Correlated capacity serverCapacity max ledger)
    ?_ ⟨ledger, h⟩ hrun
  rintro dialogue action next ⟨ledger, h⟩ - ht
  exact h.acts ht.acts

end Acts

theorem traces_run {handler : Handler σ} {state : σ} {actions : List Action}
    (h : dialogue.worker.Traces handler state) (hrun : dialogue.run actions = some next) :
    next.worker.Traces handler state := by
  refine run_turn (P := fun next => next.worker.Traces handler state) ?_ h hrun
  intro dialogue action next h _ ht
  cases ht.acts with
  | workerSteps hworker => exact h.step hworker
  | workerBreaks hbreak => exact h.breakOff hbreak
  | asks | callerWrites | callerBreaks | callerGoes | callerTurns | sockets => exact h

theorem exists_start? (handler : Handler σ) (state : σ) {config serverConfig : Config}
    (hc : config.validate = .ok ()) (hs : serverConfig.validate = .ok ())
    (requests responses : Nat) :
    ∃ start, start? handler state config serverConfig requests responses = some start ∧
      start.worker.Traces handler state ∧
      start.Correlated config.bufferCapacity serverConfig.bufferCapacity
        serverConfig.maxFrameSize ⟨[], [], [], [], []⟩ := by
  obtain ⟨intake, hintake⟩ := Intake.exists_ofConfig? hc
  obtain ⟨served, hserved⟩ := Intake.exists_ofConfig? hs
  have htracks := Intake.tracks_ofConfig? hintake
  obtain ⟨hmax, hidle⟩ := Intake.ofConfig?_fresh hserved
  have hserving := (Intake.tracks_ofConfig? hserved).read hidle
  refine ⟨_, by rw [start?, Caller.ofConfig?, Worker.ofConfig?, hintake, hserved]; rfl,
    ⟨rfl, rfl⟩, ?_⟩
  exact {
    balanced := ⟨Nat.zero_le _, nofun, List.nil_prefix, List.nil_prefix, List.nil_prefix⟩
    caller := .inl {
      connected := rfl
      answered := rfl
      begun := rfl
      left := rfl
      fits := (Intake.ofConfig?_fresh hintake).2
      expects := ⟨_, htracks, rfl⟩ }
    worker := .inl {
      max := hmax
      handled := rfl
      left := rfl
      active := .inl rfl
      fits := trivial
      expects := ⟨_, hserving, rfl⟩ } }

/-- **Responses correspond to requests.** Let a client with valid settings be connected to a
worker with valid settings and any handler, over wires of any capacity. After every run of the
client, the worker and their two pumps, with any failures: the client's sends were answered by
responses up to some point and failed from then on. The `k`-th response has the fields of the
handler's reply to the `k`-th request, which was handed to the handler with just its fields.
The handler was handed the first of the requests that the client was asked to send, in order
and once each, and at most one that was not answered. -/
theorem correlated (handler : Handler σ) (state : σ) {config serverConfig : Config}
    (hc : config.validate = .ok ()) (hs : serverConfig.validate = .ok ())
    (requests responses : Nat) :
    ∃ start, start? handler state config serverConfig requests responses = some start ∧
      ∀ actions dialogue, start.run actions = some dialogue →
        let handled := dialogue.worker.handled
        ∃ (answered : List (Message × Message)) (failed : List (Message × Except _ Message)),
          dialogue.caller.answered =
            (answered.map fun entry => (entry.1, .ok entry.2)) ++ failed ∧
          (∀ entry ∈ failed, ∃ error, entry.2 = .error error) ∧
          (∀ (k : Nat) (request response : Message), answered[k]? = some (request, response) →
            ∃ reply : Message, handled[k]? = some (request.rewind, .response reply) ∧
              response = reply.rewind) ∧
          handled.map Prod.fst <+: dialogue.caller.asked.map Message.rewind ∧
          handled.length ≤ answered.length + 1 ∧
          (handler.run state (handled.map Prod.fst)).1 = handled.map Prod.snd := by
  obtain ⟨start, hstart, htraces, hcorrelated⟩ :=
    exists_start? handler state hc hs requests responses
  refine ⟨start, hstart, ?_⟩
  intro actions dialogue hrun
  obtain ⟨ledger, h⟩ := hcorrelated.run hrun
  have hlast := traces_run htraces hrun
  have hhandled := h.handled_eq
  have hbegun := h.begun_prefix
  obtain ⟨failed, hanswered, hfailed⟩ : ∃ failed, dialogue.caller.answered =
      (ledger.answered.map fun entry => (entry.1, .ok entry.2)) ++ failed ∧
        ∀ entry ∈ failed, ∃ error, entry.2 = .error error := by
    rcases h.caller with hin | hquit
    · exact ⟨[], hin.answered.trans (List.append_nil _).symm,
        fun entry hm => absurd hm List.not_mem_nil⟩
    · exact hquit.answered
  refine ⟨ledger.answered, failed, hanswered, hfailed, ?_, ?_, ?_, ?_⟩
  · intro k request response hk
    rw [hhandled]
    exact h.balanced.exists_reply hk
  · rw [hhandled]
    exact h.balanced.handed.trans (hbegun.map _)
  · rw [hhandled]
    exact h.balanced.length_handled_le.trans h.balanced.single
  · rw [hlast.replies]

/-- A request with a field that was read, and a handler that counts. -/
theorem correlated_counting :
    let config : Config := { bufferCapacity := 8, maxFrameSize := 2 }
    let count : Handler Nat := fun state request => (.response request, state + 1)
    let request : Message := { fields := #[.bool true], cursor := 1 }
    let actions : List Action := [.send request, .push .client 6, .push .client 1,
      .pull .server 6, .pump .server, .owner .server, .owner .server, .push .server 6,
      .push .server 1, .pull .client 6, .pump .client, .owner .client, .owner .client]
    config.validate = .ok () ∧ ∃ start dialogue,
      start? count 0 config config 8 8 = some start ∧ start.run actions = some dialogue ∧
        dialogue.caller.answered = [(request, .ok request.rewind)] ∧
        ∃ reply : Message, dialogue.worker.handled[0]? = some (request.rewind, .response reply) ∧
          request.rewind = reply.rewind := by
  intro config count request actions
  have hc : config.validate = .ok () := rfl
  have hrun : ((start? count 0 config config 8 8).bind fun start =>
      (start.run actions).map fun dialogue => dialogue.caller.answered) =
      some [(request, .ok request.rewind)] := by
    cbv
  obtain ⟨start, hstart, hrun⟩ := Option.bind_eq_some_iff.mp hrun
  obtain ⟨dialogue, hrun, hone⟩ := Option.map_eq_some_iff.mp hrun
  refine ⟨hc, start, dialogue, hstart, hrun, hone, ?_⟩
  obtain ⟨first, hfirst, hall⟩ := correlated count 0 hc hc 8 8
  obtain rfl : start = first := Option.some.inj (hstart.symm.trans hfirst)
  obtain ⟨answered, failed, hanswered, hfailed, hreplies, -⟩ := hall actions dialogue hrun
  rw [hone] at hanswered
  cases answered with
  | nil =>
    have hfails : failed = [(request, .ok request.rewind)] := hanswered.symm
    obtain ⟨error, herror⟩ := hfailed (request, .ok request.rewind) (by simp [hfails])
    cases herror
  | cons entry rest =>
    obtain ⟨asked, response⟩ := entry
    simp only [List.map_cons, List.cons_append, List.cons.injEq, Prod.mk.injEq,
      Except.ok.injEq] at hanswered
    obtain ⟨⟨rfl, rfl⟩, -⟩ := hanswered
    exact hreplies 0 _ _ rfl

end Dialogue

end Parley
