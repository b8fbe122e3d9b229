import Parley.Proofs.Server.Worker

/-!
# Handlers that are functions

A handler may keep what it likes and still reply to a request as it always does
(`Handler.Computes`). What it keeps then says nothing about a service: a transcript is served in
one way (`Serves.of_computes`), and a worker takes the same turns whatever others have made of the
state in between (`Worker.exchange_step`, `Worker.Served.exchange`).
-/

namespace Parley

open Transport (Intake)

variable {σ τ : Type} {reply : Message → Reply}

/-- What the handler replies to a request depends on nothing else. -/
def Handler.Computes (handler : Handler σ) (reply : Message → Reply) : Prop :=
  ∀ state request, (handler state request).1 = reply request

theorem Handler.computes_ofFunction (reply : Message → Reply) :
    (ofFunction reply).Computes reply :=
  fun _ _ => rfl

theorem Handler.Computes.apply_eq {handler : Handler σ} {other : Handler τ}
    (h : handler.Computes reply) (hother : other.Computes reply) {state next : σ}
    {request : Message} {answer : Reply} (hh : handler state request = (answer, next))
    (state' : τ) : other state' request = (answer, (other state' request).2) := by
  refine Prod.ext ?_ rfl
  rw [hother state' request, ← h state request, hh]

/-- A service depends on nothing that the handler keeps. -/
theorem Serves.of_computes {handler : Handler σ} {other : Handler τ} (h : handler.Computes reply)
    (hother : other.Computes reply) {max : UInt32} {stops : Bool} {state : σ}
    {reports : List Report} {sent : List UInt8} {handled : List (Message × Reply)}
    {status : ServiceStatus} (hs : Serves handler max stops state reports sent handled status)
    (state' : τ) : Serves other max stops state' reports sent handled status := by
  induction hs generalizing state' with
  | waiting _ hopen => exact .waiting state' hopen
  | closed _ hstops => exact .closed state' hstops
  | dropped _ error more => exact .dropped state' error more
  | refused more hh => exact .refused more (h.apply_eq hother hh state')
  | crashed more hh => exact .crashed more (h.apply_eq hother hh state')
  | tooLarge more hh hlarge => exact .tooLarge more (h.apply_eq hother hh state') hlarge
  | answered hh hfits _ ih => exact .answered (h.apply_eq hother hh state') hfits (ih _)

namespace Worker

variable {worker worker' : Worker σ} {move : Move} {bytes : List UInt8} {capacity : Nat}
  {prospect : Prospect} {script : Arrivals} {written : List UInt8}

theorem exchange_handle (worker : Worker σ) (h : worker.handler.Computes reply)
    (request : Message) : (worker.handle request).handler = worker.handler ∧ ∀ state, ∃ state',
      { worker with state }.handle request = { worker.handle request with state := state' } := by
  cases hh : worker.handler worker.state request with
  | mk answer next =>
    obtain ⟨kept, hkept⟩ : ∃ kept : σ → σ, ∀ state,
        worker.handler state request = (answer, kept state) :=
      ⟨_, fun state => h.apply_eq h hh state⟩
    cases answer with
    | refusal | crash =>
      simp only [handle, hh, hkept]
      exact ⟨rfl, fun state => ⟨_, rfl⟩⟩
    | response response =>
      simp only [handle, hh, hkept]
      cases response.frame worker.intake.max with
      | error | ok => exact ⟨rfl, fun state => ⟨_, rfl⟩⟩

/-- What a worker makes of a turn at its connection. -/
def hear (worker : Worker σ) (report : Option Report) : Worker σ :=
  match worker.serving, report, worker.intake.owner with
  | .reading, some report, _ => worker.take report
  | .leaving status, _, .gone => { worker with serving := .done status }
  | _, _, _ => worker

theorem turn_eq (worker : Worker σ) : worker.turn =
    worker.intake.ownerTurn.map fun (intake, report) => { worker with intake }.hear report := by
  cases h : worker.intake.ownerTurn with
  | none => simp [turn, h]
  | some next =>
    simp only [turn, h, Option.bind_eq_bind, Option.bind_some, Option.map_some, Option.pure_def]
    rfl

/-- Whatever it hears, a worker takes a report or changes nothing but where it stands. -/
theorem hear_cases (worker : Worker σ) (report : Option Report) :
    (∃ told, ∀ state, { worker with state }.hear report = { worker with state }.take told) ∨
      ∃ serving, ∀ state, { worker with state }.hear report = { worker with state, serving } := by
  obtain ⟨handler, _, ⟨max, pair, pump, slot, owner, shut⟩, serving, handled⟩ := worker
  cases serving with
  | reading =>
    match report with
    | some report => exact .inl ⟨report, fun _ => rfl⟩
    | none => exact .inr ⟨.reading, fun _ => rfl⟩
  | leaving status =>
    cases owner with
    | gone => exact .inr ⟨.done status, fun _ => rfl⟩
    | idle | reading | ending | leaving | releasing | joining =>
      exact .inr ⟨.leaving status, fun _ => rfl⟩
  | writing left => exact .inr ⟨.writing left, fun _ => rfl⟩
  | done status => exact .inr ⟨.done status, fun _ => rfl⟩

theorem serving_hear (worker : Worker σ) {status : ServiceStatus}
    (h : worker.serving = .leaving status) (report : Option Report) :
    (worker.hear report).serving = .leaving status ∨
      (worker.hear report).serving = .done status := by
  unfold hear
  split
  · next hs => cases h.symm.trans hs
  · next hs _ =>
    cases h.symm.trans hs
    exact .inr rfl
  · exact .inl h

theorem exchange_hear (worker : Worker σ) (h : worker.handler.Computes reply)
    (report : Option Report) : (worker.hear report).handler = worker.handler ∧ ∀ state, ∃ state',
      { worker with state }.hear report = { worker.hear report with state := state' } := by
  rcases worker.hear_cases report with ⟨told, htake⟩ | ⟨serving, hstand⟩
  · have hself : worker.hear report = worker.take told := htake worker.state
    simp only [hself, htake]
    match told with
    | .ok none | .error _ => exact ⟨rfl, fun state => ⟨state, rfl⟩⟩
    | .ok (some request) => exact worker.exchange_handle h request
  · have hself : worker.hear report = { worker with serving } := hstand worker.state
    rw [hself]
    exact ⟨rfl, fun state => ⟨state, hstand state⟩⟩

/-- **A worker's turns do not depend on what the handler keeps**, and they keep the handler. -/
theorem exchange_step (worker : Worker σ) (h : worker.handler.Computes reply)
    (hs : worker.step move = some (worker', bytes)) :
    worker'.handler = worker.handler ∧ ∀ state, ∃ state',
      { worker with state }.step move = some ({ worker' with state := state' }, bytes) := by
  cases move with
  | arrive arrival =>
    obtain ⟨intake, harrive, heq⟩ := Option.map_eq_some_iff.mp hs
    cases heq
    exact ⟨rfl, fun state => ⟨state, by rw [step, harrive]; rfl⟩⟩
  | pump =>
    obtain ⟨intake, hpump, heq⟩ := Option.map_eq_some_iff.mp hs
    cases heq
    exact ⟨rfl, fun state => ⟨state, by rw [step, hpump]; rfl⟩⟩
  | owner =>
    obtain ⟨next, hturn, heq⟩ := Option.map_eq_some_iff.mp hs
    cases heq
    rw [turn_eq] at hturn
    obtain ⟨⟨intake, report⟩, hintake, rfl⟩ := Option.map_eq_some_iff.mp hturn
    have hhears := exchange_hear { worker with intake } h report
    refine ⟨hhears.1, fun state => ?_⟩
    obtain ⟨state', heq⟩ := hhears.2 state
    refine ⟨state', ?_⟩
    rw [← heq, step, turn_eq, hintake]
    rfl
  | push n =>
    simp only [step, push] at hs
    split at hs
    · next hserving =>
      cases hs
      exact ⟨rfl, fun state => ⟨state, by simp only [step, push, hserving]⟩⟩
    · next left hne hserving =>
      split at hs
      · cases hs
      · next hn =>
        cases hs
        refine ⟨rfl, fun state => ⟨state, ?_⟩⟩
        simp only [step, push, hserving, hn, if_false]
    · cases hs

theorem Off.exchange (h : Off capacity prospect ⟨worker, script, written⟩) (state : σ) :
    Off capacity prospect ⟨{ worker with state }, script, written⟩ :=
  { h with }

theorem Off.step (h : Off capacity prospect ⟨worker, Move.arrivals [move] ++ script, written⟩)
    (hs : worker.step move = some (worker', bytes)) :
    Off capacity prospect ⟨worker', script, written ++ bytes⟩ :=
  (h.turn (turn_of_step h.live.sound h.fits hs)).1

/-- A service goes on as it would have, whatever the handler keeps by now. -/
theorem Served.exchange (h : worker.handler.Computes reply)
    (hs : Served capacity prospect ⟨worker, script, written⟩) (state : σ) :
    Served capacity prospect ⟨{ worker with state }, script, written⟩ := by
  rcases hs with ⟨more, hon⟩ | hoff
  · obtain ⟨rest, later, hserves, hsent, hhandled⟩ := hon.serves
    exact .inl ⟨more, { hon with
      serves := ⟨rest, later, hserves.of_computes h h state, hsent, hhandled⟩ }⟩
  · exact .inr (hoff.exchange state)

/-- A read that finds a socket shut down changes nothing of a service. -/
theorem Served.shut (h : Served capacity prospect ⟨worker, script, written⟩)
    (hshut : worker.intake.shut = true) {intake : Intake}
    (harrive : worker.intake.arrive (.ok []) = some intake) :
    Served capacity prospect ⟨{ worker with intake }, script, written⟩ := by
  rcases h with ⟨more, hon⟩ | hoff
  · exact absurd hshut hon.not_shut
  · exact .inr (hoff.shut harrive)

theorem Served.ne_waiting (h : Served capacity prospect ⟨worker, script, written⟩)
    {status : ServiceStatus} (hs : worker.serving = .done status) : status ≠ .waiting := by
  rcases h with ⟨more, hon⟩ | hoff
  · rcases hon.active with hactive | ⟨left, hactive⟩
    · cases hs.symm.trans hactive
    · cases hs.symm.trans hactive
  · rcases hoff.ends with hends | hends
    · cases hs.symm.trans hends
    · cases hs.symm.trans hends
      exact hoff.ended

theorem served_ofConfig? {handler : Handler σ} {state : σ} {config : Config}
    (hw : ofConfig? handler state config = some worker) (hs : script.Feasible)
    {transcript : List Report} {sent : List UInt8} {handled : List (Message × Reply)}
    {status : ServiceStatus}
    (ht : Transcript config.maxFrameSize script.stop? script.data transcript)
    (hserves : Serves handler config.maxFrameSize script.stop?.isSome state transcript sent handled
      status) :
    Served config.bufferCapacity ⟨script.stop?.isSome, sent, handled, status⟩
      ⟨worker, script, []⟩ := by
  obtain ⟨intake, hintake, rfl⟩ := Option.map_eq_some_iff.mp hw
  obtain ⟨hmax, hidle⟩ := Intake.ofConfig?_fresh hintake
  have htracks := (Intake.tracks_ofConfig? hintake).read hidle
  exact .inl ⟨transcript, {
    active := .inl rfl
    fits := trivial
    awaits := by
      refine ⟨⟨htracks.sound, hs⟩, _, htracks, ?_⟩
      rw [Course.inner, Receiver.foldl_arrive]
      exact ⟨rfl, ht⟩
    serves := ⟨_, _, hmax ▸ hserves, rfl, rfl⟩
    answers := rfl }⟩

end Worker

end Parley
