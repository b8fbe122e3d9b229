import Parley.Proofs.Client.History
import Parley.Proofs.Client.Sends

/-!
# A client loses its connection once

A client starts with a connection, and has it until a send fails or it is asked to disconnect. From
then on every call returns that there is none, and its socket is left alone.

**The invariant** (`Session.Stands`). What the calls have returned is a history, and between two
calls the client is connected just as the history says. A call that meets the loss has not returned
yet while the client gives its connection up: a send then holds the error that it is going to
return, with the report that this was made of, and a disconnect what came of shutting the socket
down.

**Theorem (`Session.one_way`).** This holds in every run of calls and moves, whatever the peer does
and whenever the connection is closed from elsewhere. Once the connection is lost, every call is
refused at once and no byte is read from the socket or written to it.
-/

namespace Parley

open Transport (Intake Owner)

namespace Session

variable {session next : Session} {line : Line} {action : Line.Action} {capacity : Nat}

/-- What is known of what was returned, by where the client stands: the send under way is not a part
of it yet. -/
def Tallies (connected : Bool) (came : Option Report) (log : List Event) : Asking → Prop
  | .idle => came = none ∧ History connected log
  | .writing _ _ | .awaiting _ => came = none ∧ History true log
  | .leaving _ error => History true log ∧ ∃ report, came = some report ∧
      report ≠ .error .closed ∧ Client.responseOf report = .error error

/-- The client, its connection and what its calls have returned agree; or it is disconnecting. -/
inductive Stands (capacity : Nat) (session : Session) : Prop
  | calls (hs : session.line.caller.Sound capacity) (hf : session.line.caller.intake.Frank)
      (hparting : session.parting = none)
      (ht : Tallies session.line.caller.client.connected session.came session.log
        session.line.caller.asking)
  | parts {result : Except TransportError Unit}
      (hs : session.line.caller.intake.Sound capacity) (hf : session.line.caller.intake.Frank)
      (hleaves : session.line.caller.intake.owner.Leaves)
      (hidle : session.line.caller.asking = .idle)
      (hc : session.line.caller.client.connected = false)
      (hparting : session.parting = some result) (hcame : session.came = none)
      (hlog : History true session.log)

/-! ### Moves -/

theorem goes_of_answer (hs : session.line.step action = some line) {request : Message}
    {result : Except TransportError Message}
    (ha : line.caller.answered = session.line.caller.answered ++ [(request, result)]) :
    session.goes action = some ({ session with line, came := none }.note
      (.sent request (session.line.comes? action <|> session.came) result)) := by
  simp [goes, hs, ha]

theorem goes_of_same (hs : session.line.step action = some line)
    (ha : line.caller.answered = session.line.caller.answered) (hp : session.parting = none) :
    session.goes action =
      some { session with line, came := session.line.comes? action <|> session.came } := by
  simp [goes, hs, ha, hp]

theorem goes_of_parting (hs : session.line.step action = some line)
    (ha : line.caller.answered = session.line.caller.answered)
    {result : Except TransportError Unit} (hp : session.parting = some result) :
    (line.caller.intake.owner ≠ .gone → session.goes action = some { session with line }) ∧
      (line.caller.intake.owner = .gone → session.goes action =
        some ({ session with line, parting := none }.note (.disconnected result))) := by
  constructor
  · intro ho
    cases howner : line.caller.intake.owner with
    | gone => exact absurd howner ho
    | idle | reading | ending | leaving | releasing | joining => simp [goes, hs, ha, hp, howner]
  · intro ho
    simp [goes, hs, ha, hp, ho]

theorem Tallies.of_connected {caller : Caller} {came : Option Report} {log : List Event}
    (hs : caller.Sound capacity) (ht : Tallies caller.client.connected came log caller.asking)
    (hc : caller.client.connected = true) : came = none ∧ History true log := by
  have hplaces := hs.places
  cases ha : caller.asking with
  | idle =>
    rw [ha, hc] at ht
    exact ht
  | writing | awaiting =>
    rw [ha] at ht
    exact ht
  | leaving =>
    rw [ha, hc] at hplaces
    cases hplaces.1

theorem tallies_of_sends {connected : Bool} {asking : Asking} {log : List Event}
    (h : asking.Sends) (hlog : History true log) : Tallies connected none log asking := by
  cases asking with
  | writing | awaiting => exact ⟨rfl, hlog⟩
  | idle | leaving => cases h

/-- **A stride of the send under way keeps the tally.** -/
theorem Tallies.stride (hs : session.line.caller.Sound capacity)
    (ht : Tallies session.line.caller.client.connected session.came session.log
      session.line.caller.asking) (hparting : session.parting = none)
    (hline : line.caller.Sound capacity) (hf : line.caller.intake.Frank)
    (hstep : session.line.step action = some line)
    (h : session.line.Stride (session.line.comes? action) line)
    (hnext : session.goes action = some next) : next.Stands capacity := by
  generalize hcomes : session.line.comes? action = came at h
  cases h with
  | stays hasking hclient hanswered =>
    rw [goes_of_same hstep hanswered hparting, hcomes] at hnext
    cases hnext
    refine .calls hline hf hparting ?_
    show Tallies line.caller.client.connected session.came session.log line.caller.asking
    rw [hasking, hclient]
    exact ht
  | sends hc hasking hclient hanswered =>
    obtain ⟨hcame, hlog⟩ := ht.of_connected hs hc
    rw [goes_of_same hstep hanswered hparting, hcomes, hcame] at hnext
    cases hnext
    exact .calls hline hf hparting (tallies_of_sends hasking hlog)
  | answers hc hr hasking hclient hanswered =>
    obtain ⟨-, hlog⟩ := ht.of_connected hs hc
    rw [goes_of_answer hstep hanswered, hcomes] at hnext
    cases hnext
    refine .calls hline hf hparting ?_
    show Tallies line.caller.client.connected none _ line.caller.asking
    rw [hasking, hclient, hc]
    exact ⟨rfl, hlog.answers hr⟩
  | fails hc hne hr hasking hanswered =>
    obtain ⟨-, hlog⟩ := ht.of_connected hs hc
    rw [goes_of_same hstep hanswered hparting, hcomes] at hnext
    cases hnext
    refine .calls hline hf hparting ?_
    show Tallies line.caller.client.connected _ session.log line.caller.asking
    rw [hasking]
    exact ⟨hlog, _, rfl, hne, hr⟩
  | parts hleaving hasking hclient hanswered =>
    have hplaces := hs.places
    rw [hleaving] at hplaces ht
    obtain ⟨hlog, report, hcame, hne, hr⟩ := ht
    rw [goes_of_answer hstep hanswered, hcomes, hcame] at hnext
    cases hnext
    refine .calls hline hf hparting ?_
    show Tallies line.caller.client.connected none _ line.caller.asking
    rw [hasking, hclient, hplaces.1]
    exact ⟨rfl, hlog.fails hne hr⟩
  | refuses hidle hc hasking hclient hanswered =>
    rw [hidle, hc] at ht
    obtain ⟨hcame, hlog⟩ := ht
    rw [goes_of_answer hstep hanswered, hcomes, hcame] at hnext
    cases hnext
    refine .calls hline hf hparting ?_
    show Tallies line.caller.client.connected none _ line.caller.asking
    rw [hasking, hclient, hc]
    exact ⟨rfl, hlog.refuses (.send _)⟩

/-- **A move while the client disconnects** takes this further, or to its end. -/
theorem Stands.goes_parting {result : Except TransportError Unit}
    (hs : session.line.caller.intake.Sound capacity)
    (hleaves : session.line.caller.intake.owner.Leaves)
    (hidle : session.line.caller.asking = .idle)
    (hc : session.line.caller.client.connected = false) (hparting : session.parting = some result)
    (hcame : session.came = none) (hlog : History true session.log)
    (hf : session.line.caller.intake.Frank) (hsend : ∀ request, action ≠ .send request)
    (hstep : session.line.step action = some line) (hnext : session.goes action = some next) :
    next.Stands capacity := by
  -- The client stands idle while its owner leaves, so that it is not sound in between: only the
  -- two threads are, and nothing else can move.
  obtain ⟨intake, hcaller, hintake⟩ := Line.idle_of_step hidle hsend hstep
  have hgoes := goes_of_parting hstep (by rw [hcaller]) hparting
  obtain ⟨hsound, howner, hfrank⟩ : intake.Sound capacity ∧
      (intake.owner.Leaves ∨ intake.owner = .gone) ∧ intake.Frank := by
    rcases hintake with rfl | ⟨move, report, hmove⟩
    · exact ⟨hs, .inl hleaves, hf⟩
    · exact ⟨hs.step hmove, hs.leaves_of_step hleaves hmove, (hf.step hs hmove).1⟩
  obtain ⟨caller, responses⟩ := line
  have hcaller : caller = { session.line.caller with intake } := hcaller
  subst hcaller
  rcases howner with hleaves | hgone
  · rw [hgoes.1 hleaves.busy.2] at hnext
    cases hnext
    exact .parts hsound hfrank hleaves hidle hc hparting hcame hlog
  · rw [hgoes.2 hgone] at hnext
    cases hnext
    refine .calls ⟨hsound, ?_⟩ hfrank rfl ?_
    · show session.line.caller.asking.Places session.line.caller.client.connected intake.owner
      rw [hidle, hc]
      exact hgone
    · show Tallies session.line.caller.client.connected session.came _ session.line.caller.asking
      rw [hidle, hc]
      exact ⟨hcame, hlog.disconnects result⟩

/-- **A move keeps what is known of the session.** -/
theorem Stands.goes (h : session.Stands capacity)
    (hsend : session.atRest = true ∨ ∀ request, action ≠ .send request)
    (hnext : session.goes action = some next) : next.Stands capacity := by
  obtain ⟨line, hstep, -⟩ := Option.bind_eq_some_iff.mp hnext
  cases h with
  | calls hs hf hparting ht =>
    have hline := Line.sound_turn hs (Line.turn_of_step hstep)
    exact ht.stride hs hparting hline (Line.frank_of_step hs hf hstep) hstep
      (Line.stride_of_step hs hf hstep) hnext
  | parts hs hf hleaves hidle hc hparting hcame hlog =>
    rcases hsend with hrest | hsend
    · simp [atRest, hparting] at hrest
    · exact goes_parting hs hleaves hidle hc hparting hcame hlog hf hsend hstep hnext

/-! ### Calls -/

theorem disconnect_of_connected (hc : session.line.caller.client.connected = true)
    (shutDown : Except Failure Unit) : ∃ responses, session.disconnect shutDown = { session with
      line := { responses, caller := { session.line.caller with
        client := { session.line.caller.client with connected := false }
        intake := { session.line.caller.intake with owner := .leaving } } }
      parting := some (shutDown.mapError .failed) } := by
  cases shutDown with
  | ok =>
    refine ⟨{ session.line.responses with cut := true }, ?_⟩
    simp [disconnect, Client.disconnect, hc, Except.isOk, Except.toBool, Line.close]
  | error =>
    refine ⟨session.line.responses, ?_⟩
    simp [disconnect, Client.disconnect, hc, Except.isOk, Except.toBool]

/-- Between two calls the client is where they left it. -/
theorem Stands.at_rest (h : session.Stands capacity) (hr : session.atRest = true) :
    session.line.caller.Sound capacity ∧ session.line.caller.intake.Frank ∧
      session.line.caller.asking = .idle ∧ session.parting = none ∧ session.came = none ∧
      History session.line.caller.client.connected session.log := by
  unfold atRest at hr
  split at hr
  · next hidle hparting =>
    cases h with
    | calls hs hf _ ht =>
      rw [hidle] at ht
      exact ⟨hs, hf, hidle, hparting, ht.1, ht.2⟩
    | parts _ _ _ _ _ hsome => cases hsome.symm.trans hparting
  · cases hr

theorem Stands.note (h : session.Stands capacity) (hr : session.atRest = true) {event : Event}
    (hlog : History session.line.caller.client.connected (session.log ++ [event])) :
    (session.note event).Stands capacity := by
  obtain ⟨hs, hf, hidle, hparting, hcame, -⟩ := h.at_rest hr
  refine .calls hs hf hparting ?_
  show Tallies session.line.caller.client.connected session.came _ session.line.caller.asking
  rw [hidle]
  exact ⟨hcame, hlog⟩

theorem disconnect_of_not_connected (hc : session.line.caller.client.connected = false)
    (shutDown : Except Failure Unit) :
    session.disconnect shutDown = session.note (Call.disconnect shutDown).refusal := by
  simp [disconnect, Client.disconnect, Call.refusal, hc]

theorem closer_of_not_connected {client : Client} (hc : client.connected = false)
    (copy : Except TransportError Unit) : (do client.closer; copy) = .error .closed := by
  rw [Client.closer, hc]
  rfl

/-- **A call keeps it.** -/
theorem Stands.begin (h : session.Stands capacity) (hr : session.atRest = true) {call : Call}
    (hnext : session.begin call = some next) : next.Stands capacity := by
  obtain ⟨hs, hf, hidle, hparting, hcame, hlog⟩ := h.at_rest hr
  cases call with
  | send request => exact h.goes (.inl hr) hnext
  | disconnect shutDown =>
    have hnext : session.disconnect shutDown = next := Option.some.inj hnext
    have hplaces := hs.places
    subst hnext
    cases hc : session.line.caller.client.connected with
    | true =>
      obtain ⟨responses, hdisconnect⟩ := disconnect_of_connected hc shutDown
      rw [hidle, hc] at hplaces
      rw [hc] at hlog
      rw [hdisconnect]
      exact .parts (hs.intake.leave hplaces) (Intake.frank_of_owner id nofun) trivial hidle rfl
        rfl hcame hlog
    | false =>
      rw [disconnect_of_not_connected hc]
      rw [hc] at hlog
      refine h.note hr ?_
      rw [hc]
      exact hlog.refuses _
  | closer copy =>
    cases hnext
    refine h.note hr ?_
    cases hc : session.line.caller.client.connected with
    | true =>
      rw [hc] at hlog
      exact hlog.hands _
    | false =>
      rw [hc] at hlog
      rw [closer_of_not_connected hc]
      exact hlog.refuses (.closer copy)

/-- **Every action keeps it.** -/
theorem Stands.step (h : session.Stands capacity) {action : Action}
    (hnext : session.step action = some next) : next.Stands capacity := by
  cases action with
  | call call =>
    simp only [Session.step] at hnext
    split at hnext
    · next hr => exact h.begin hr hnext
    · cases hnext
  | move action =>
    cases action with
    | send request => cases hnext
    | push | refuse | deliver | hangUp | pull | fail | pump | owner | close =>
      refine h.goes (.inr fun request heq => ?_) hnext
      cases heq

theorem stands_start? {config : Config} {held : Nat} {start : Session}
    (h : start? config held = some start) : start.line.caller.client.connected = true ∧
      start.Stands config.bufferCapacity := by
  obtain ⟨line, hline, rfl⟩ := Option.map_eq_some_iff.mp h
  obtain ⟨caller, hcaller, rfl⟩ := Option.map_eq_some_iff.mp hline
  have hs := Caller.sound_ofConfig? hcaller
  obtain ⟨intake, hintake, rfl⟩ := Option.map_eq_some_iff.mp hcaller
  obtain ⟨-, howner⟩ := Intake.ofConfig?_fresh hintake
  refine ⟨rfl, .calls hs (Intake.frank_of_owner ?_ ?_) rfl ⟨rfl, .start⟩⟩
  · rw [howner]
    exact id
  · rw [howner]
    nofun

/-- **Every run keeps it.** -/
theorem Stands.run {actions : List Action} (h : session.Stands capacity)
    (hrun : session.run actions = some next) : next.Stands capacity := by
  induction actions generalizing session with
  | nil =>
    cases hrun
    exact h
  | cons action rest ih =>
    obtain ⟨mid, hstep, hrest⟩ := Option.bind_eq_some_iff.mp hrun
    exact ih (h.step hstep) hrest

/-! ### After the loss -/

/-- Every call returns at once that there is no connection and leaves the socket and the two threads
as they are. No byte is written to the socket, and no read of it comes to its end. -/
structure Severed (session : Session) : Prop where
  refuses : ∀ call : Call, ∃ next, session.step (.call call) = some next ∧
    next.log = session.log ++ [call.refusal] ∧
    next.line.responses = session.line.responses ∧
    next.line.caller.intake = session.line.caller.intake
  silent : ∀ n failure, session.step (.move (.push n)) = none ∧
    session.step (.move (.pull n)) = none ∧ session.step (.move (.fail failure)) = none

/-- **A client that has lost its connection is severed** from its socket. -/
theorem Stands.severed (h : session.Stands capacity) (hr : session.atRest = true)
    (hc : session.line.caller.client.connected = false) : session.Severed := by
  obtain ⟨hs, hf, hidle, hparting, hcame, -⟩ := h.at_rest hr
  have hplaces := hs.places
  rw [hidle, hc] at hplaces
  have hpump : session.line.caller.intake.pump = .finished := hf.joined hplaces
  have harrive : ∀ arrival, session.line.caller.intake.arrive arrival = none := fun arrival => by
    simp [Intake.arrive, hpump]
  refine ⟨fun call => ?_, fun n failure => ⟨?_, ?_, ?_⟩⟩
  · have hcall : session.step (.call call) = session.begin call := if_pos hr
    rw [hcall]
    cases call with
    | send request =>
      have hstep : session.line.step (.send request) = some { session.line with
          caller := { session.line.caller with
            answered := session.line.caller.answered ++ [(request, .error .closed)] } } := by
        simp [Line.step, Caller.ask, hidle, hc]
      have hcomes : session.line.comes? (.send request) = none := by
        simp [Line.comes?, hidle, hc]
      have hgoes := goes_of_answer hstep rfl
      rw [hcomes, hcame] at hgoes
      exact ⟨_, hgoes, rfl, rfl, rfl⟩
    | disconnect shutDown =>
      exact ⟨_, congrArg some (disconnect_of_not_connected hc shutDown), rfl, rfl, rfl⟩
    | closer copy =>
      refine ⟨_, rfl, ?_, rfl, rfl⟩
      rw [closer_of_not_connected hc]
      rfl
  · simp [Session.step, Session.goes, Line.step, Line.push, Caller.push, hidle]
  · simp [Session.step, Session.goes, Line.step, Line.pull, harrive]
  · simp [Session.step, Session.goes, Line.step, harrive]

theorem Stands.history (h : session.Stands capacity) :
    ∃ connected, History connected session.log := by
  cases h with
  | parts _ _ _ _ _ _ _ hlog => exact ⟨true, hlog⟩
  | calls _ _ _ ht =>
    cases ha : session.line.caller.asking with
    | idle => rw [ha] at ht; exact ⟨_, ht.2⟩
    | writing | awaiting => rw [ha] at ht; exact ⟨true, ht.2⟩
    | leaving => rw [ha] at ht; exact ⟨true, ht.1⟩

/-- **A client loses its connection once.** Take any run of calls of a new client and of moves at
its connection, whatever the peer does and whenever the connection is closed from elsewhere. The
client starts with its connection. Between two calls it has it just if no send has failed and it was
never asked to disconnect, whatever came of shutting the socket down. A send before that returns
what it came to, but that the connection is closed just if it was torn down; so no failure of such a
kind is ever returned. After the loss every call is refused, at once and with the socket left
alone. -/
theorem one_way {config : Config} {held : Nat} {start : Session} {actions : List Action}
    (hstart : start? config held = some start) (hrun : start.run actions = some session) :
    start.line.caller.client.connected = true ∧
      (session.atRest = true → (session.line.caller.client.connected = true ↔
        ∀ event ∈ session.log, ¬event.Severs)) ∧
      (∀ before request came result after,
        session.log = before ++ .sent request came result :: after →
        (∀ event ∈ before, ¬event.Severs) →
        ∃ report, came = some report ∧ report.Returns result) ∧
      (∀ request came failure, failure.kind.isDisconnect = true →
        .sent request came (.error (.failed failure)) ∉ session.log ∧
        .sent request came (.error (.frame (.failed failure))) ∉ session.log) ∧
      (∀ before event after, session.log = before ++ event :: after → event.Severs →
        ∀ later ∈ after, ∃ call : Call, later = call.refusal) ∧
      (session.atRest = true → session.line.caller.client.connected = false →
        session.Severed) := by
  obtain ⟨hconnected, hstands⟩ := stands_start? hstart
  have hstands := hstands.run hrun
  obtain ⟨connected, hlog⟩ := hstands.history
  refine ⟨hconnected, fun hr => ?_, ?_, fun request came failure hk => ⟨?_, ?_⟩, ?_,
    hstands.severed⟩
  · obtain ⟨-, -, -, -, -, hlog⟩ := hstands.at_rest hr
    exact hlog.connected_iff
  · intro before request came result after heq hb
    rw [heq] at hlog
    exact hlog.sent hb
  · exact fun hm => hlog.not_tornDown hm nofun (.read hk)
  · exact fun hm => hlog.not_tornDown hm nofun (.write hk)
  · intro before event after heq hs later hm
    rw [heq] at hlog
    exact hlog.refused hs hm

/-- A request that is answered, a handle, and a request under which the handle is used: its write
fails, and the client is severed. -/
theorem one_way_closed_under_write :
    let config : Config := { bufferCapacity := 8, maxFrameSize := 16 }
    let request : Message := { fields := #[.bool true] }
    let actions : List Action :=
      [.call (.send request), .move (.push 6), .move (.push 1), .move (.deliver [0, 0, 0, 2, 0, 1]),
        .move (.pull 9), .move .pump, .move .owner, .move .owner, .call (.closer (.ok ())),
        .call (.send request), .move .close, .move (.push 6), .move .owner, .move .owner,
        .move (.pull 1), .move .pump, .move .owner]
    let cause : TransportError := .frame (.failed .brokenPipe)
    ∃ start session, start? config 8 = some start ∧ start.run actions = some session ∧
      session.log = [.sent request (some (.ok (some request))) (.ok request), .closer (.ok ()),
        .sent request (some (.error cause)) (.error .closed)] ∧ session.Severed := by
  intro config request actions cause
  have hrun : ((start? config 8).bind fun start => (start.run actions).map fun session =>
      (session.log, session.atRest, session.line.caller.client.connected)) =
      some ([.sent request (some (.ok (some request))) (.ok request), .closer (.ok ()),
        .sent request (some (.error cause)) (.error .closed)], true, false) := by
    cbv
  obtain ⟨start, hstart, hrun⟩ := Option.bind_eq_some_iff.mp hrun
  obtain ⟨session, hrun, hsession⟩ := Option.map_eq_some_iff.mp hrun
  simp only [Prod.mk.injEq] at hsession
  obtain ⟨hlog, hr, hc⟩ := hsession
  obtain ⟨-, -, -, -, -, hsevered⟩ := one_way hstart hrun
  exact ⟨start, session, hstart, hrun, hlog, hsevered hr hc⟩

end Session

end Parley
