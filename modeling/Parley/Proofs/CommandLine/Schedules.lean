import Parley.Proofs.CommandLine.Client
import Parley.Proofs.Exchange.Schedules

/-!
# The client program on every schedule

What the client program prints is stated of an `Exchange`, where a send is made in one go. In a
`Dialogue` it takes as many turns of the threads and the sockets as it needs, in whatever order
these come. A schedule is then any function that makes the program's sends by such turns, and it may
choose them by all that the two ends have come to.

**Theorem (`CommandLine.Client.program_of_schedules`).** On every schedule without failures the
program prints what it prints over an exchange, and the handler keeps what it keeps there. Over
wires that hold a byte or more there is such a schedule.
-/

namespace Parley

variable {σ : Type}

namespace Dialogue

/-- The client has come to the end of its sends, in a run without failures. -/
def Reaches (start dialogue : Dialogue σ) : Prop :=
  ∃ actions : List Action, (∀ action ∈ actions, action.Harmless) ∧
    start.run actions = some dialogue ∧ dialogue.caller.asking = .idle

/-- The client makes a send, in a run without failures, and comes to this result. -/
def Makes (request : Message) (result : Except TransportError Message)
    (dialogue next : Dialogue σ) : Prop :=
  ∃ actions : List Action, (∀ action ∈ actions, action.Harmless) ∧
    dialogue.run (.send request :: actions) = some next ∧ next.caller.asking = .idle ∧
    next.caller.answered = dialogue.caller.answered ++ [(request, result)]

/-- Whatever the client has come to, this makes its next send. -/
def Schedules (start : Dialogue σ)
    (send : Dialogue σ → Message → Except TransportError Message × Dialogue σ) : Prop :=
  ∀ dialogue request, start.Reaches dialogue →
    Makes request (send dialogue request).1 dialogue (send dialogue request).2

variable {start dialogue next : Dialogue σ} {request : Message}
  {result : Except TransportError Message}
  {send : Dialogue σ → Message → Except TransportError Message × Dialogue σ}

theorem Reaches.makes (h : start.Reaches dialogue) (hm : Makes request result dialogue next) :
    start.Reaches next := by
  obtain ⟨before, hbefore, hstart, -⟩ := h
  obtain ⟨actions, hactions, hrun, hidle, -⟩ := hm
  refine ⟨before ++ .send request :: actions, ?_, ?_, hidle⟩
  · exact List.forall_mem_append.mpr ⟨hbefore, List.forall_mem_cons.mpr ⟨trivial, hactions⟩⟩
  · rw [run, List.foldlM_append]
    exact Option.bind_eq_some_iff.mpr ⟨dialogue, hstart, hrun⟩

/-- **A schedule tells what the client is told**: it goes from one end of a send to the next, and
the client is told what its sends return. -/
theorem Schedules.after (hs : start.Schedules send) (h : start.Reaches dialogue)
    (requests : List Message) :
    let last := CommandLine.Client.after send dialogue requests
    start.Reaches last ∧
      last.caller.answered.map Prod.fst = dialogue.caller.answered.map Prod.fst ++ requests ∧
      last.caller.answered.map Prod.snd =
        dialogue.caller.answered.map Prod.snd ++ Exchange.sendAll send dialogue requests := by
  induction requests generalizing dialogue with
  | nil => exact ⟨h, (List.append_nil _).symm, (List.append_nil _).symm⟩
  | cons request requests ih =>
    have hmakes := hs dialogue request h
    obtain ⟨hlast, hrequests, hresults⟩ := ih (h.makes hmakes)
    obtain ⟨-, -, -, -, hanswered⟩ := hmakes
    refine ⟨hlast, ?_, ?_⟩
    · rw [hanswered, List.map_append, List.append_assoc] at hrequests
      exact hrequests
    · rw [hanswered, List.map_append, List.append_assoc] at hresults
      exact hresults

theorem exists_makes (hidle : dialogue.caller.asking = .idle)
    (h : ∀ next, dialogue.step (.send request) = some next →
      Inevitable Advances (fun next => next.caller.asking = .idle ∧
        next.caller.answered = dialogue.caller.answered ++ [(request, result)]) next) :
    ∃ next, Makes request result dialogue next := by
  obtain ⟨asked, hask⟩ : ∃ asked, dialogue.step (.send request) = some asked := by
    rw [step, Caller.ask, hidle]
    exact ⟨_, rfl⟩
  obtain ⟨actions, next, hparty, hrun, hreturns⟩ := exists_run_of_inevitable (h asked hask)
  refine ⟨next, actions, fun action hm => (hparty action hm).harmless, ?_, hreturns⟩
  exact Option.bind_eq_some_iff.mpr ⟨asked, hask, hrun⟩

/-- **There is a schedule** if every send inevitably comes to its end: in each state it takes some
turns that lead there. -/
theorem exists_schedules
    (hends : ∀ dialogue request, start.Reaches dialogue →
      ∃ result next, Makes request result dialogue next) : ∃ send, start.Schedules send := by
  classical
  refine ⟨fun dialogue request => if h : start.Reaches dialogue then
    ((hends dialogue request h).choose, (hends dialogue request h).choose_spec.choose)
    else (.error .closed, dialogue), fun dialogue request h => ?_⟩
  simp only [dif_pos h]
  exact (hends dialogue request h).choose_spec.choose_spec

theorem reaches_start? {handler : Handler σ} {state : σ} {config serverConfig : Config}
    {requests responses : Nat}
    (h : start? handler state config serverConfig requests responses = some start) :
    start.Reaches start ∧ start.caller.answered = [] := by
  simp only [start?, Option.bind_eq_bind, Option.bind_eq_some_iff, Option.pure_def,
    Option.some.injEq] at h
  obtain ⟨caller, hcaller, -, -, rfl⟩ := h
  obtain ⟨intake, -, rfl⟩ := Option.map_eq_some_iff.mp hcaller
  exact ⟨⟨[], List.forall_mem_nil _, rfl, rfl⟩, rfl⟩

end Dialogue

theorem Exchange.Sent.eq_after {handler : Handler σ} {start exchange : Exchange σ}
    {answered : List (Message × Except TransportError Message)}
    (h : Exchange.Sent handler start answered exchange) : exchange =
      CommandLine.Client.after (Exchange.send handler) start (answered.map Prod.fst) := by
  induction h with
  | none => rfl
  | more _ hs ih =>
    rw [List.map_append, List.map_singleton, CommandLine.Client.after_concat, ← ih, hs]

namespace CommandLine.Client

/-- Where the sends return the same the loop prints the same, and sends the same. -/
theorem run_of_sendAll {κ κ' : Type} {send : κ → Message → Except TransportError Message × κ}
    {send' : κ' → Message → Except TransportError Message × κ'} {connection : κ}
    {connection' : κ'} {values : List String}
    (h : Exchange.sendAll send connection (values.map request) =
      Exchange.sendAll send' connection' (values.map request)) :
    ∃ output sent, run send connection values = (output, after send connection sent) ∧
      run send' connection' values = (output, after send' connection' sent) := by
  refine ⟨_, _, run_eq send connection values, ?_⟩
  rw [h]
  exact run_eq send' connection' values

/-- **Over any schedule the program sees an exchange**: its sends return the same, and what is left
agrees. -/
theorem sendAll_of_schedules (handler : Handler σ) (state : σ) {config serverConfig : Config}
    (hc : config.validate = .ok ()) (hs : Transport.setUp serverConfig = .ok ())
    (toServer toClient : Nat) :
    ∃ start, Dialogue.start? handler state config serverConfig toServer toClient = some start ∧
      ∀ send, start.Schedules send → ∀ requests,
        let first := Exchange.start config serverConfig state
        Exchange.sendAll send start requests =
            Exchange.sendAll (Exchange.send handler) first requests ∧
          (after send start requests).worker.state =
            (after (Exchange.send handler) first requests).state := by
  obtain ⟨start, hstart, hsettled⟩ :=
    Dialogue.answers_settled handler state hc hs toServer toClient
  refine ⟨start, hstart, ?_⟩
  intro send hschedules requests first
  obtain ⟨hreaches, hnone⟩ := Dialogue.reaches_start? hstart
  obtain ⟨⟨actions, hh, hrun, hidle⟩, hrequests, hresults⟩ := hschedules.after hreaches requests
  obtain ⟨hall, last, hsent, hagrees⟩ := hsettled actions _ hh hrun
  rw [hnone, List.map_nil, List.nil_append] at hrequests hresults
  refine ⟨?_, ?_⟩
  · rw [← hresults, hall, hrequests]
  · rw [← (hagrees hidle).2, hsent.eq_after, hrequests]

/-- **What the program prints does not depend on the schedule.** Let it ask for a connection with
valid settings, at a server whose settings its sockets take, with any handler, over wires of any
capacity. If its sends are made on any schedule without failures, it prints what it prints over an
exchange, with the same exit code, and the handler keeps the same. Over wires that hold a byte or
more there is such a schedule. -/
theorem program_of_schedules (handler : Handler σ) (state : σ) {arguments : List String}
    {invocation : Invocation} {serverConfig : Config} (hasks : Asks arguments invocation)
    (hvalid : invocation.config.validate = .ok ()) (hsetup : Transport.setUp serverConfig = .ok ())
    (toServer toClient : Nat) :
    ∃ start, Dialogue.start? handler state invocation.config serverConfig toServer toClient =
        some start ∧
      (0 < toServer → 0 < toClient → ∃ send, start.Schedules send) ∧
      ∀ connect send, connect invocation = .ok start → start.Schedules send →
        let first := Exchange.start invocation.config serverConfig state
        (run send start invocation.values).2.worker.state =
            (run (Exchange.send handler) first invocation.values).2.state ∧
          program connect send
              (fun dialogue => (dialogue.caller.client.disconnect (.ok ())).1) arguments =
            program (fun invocation =>
                Exchange.connect ⟨true⟩ true invocation.config serverConfig state)
              (Exchange.send handler) (fun exchange => exchange.disconnect.1) arguments := by
  obtain ⟨start, hstart, hsame⟩ :=
    sendAll_of_schedules handler state hvalid hsetup toServer toClient
  refine ⟨start, hstart, ?_, ?_⟩
  · intro hq hr
    obtain ⟨start', hstart', hsettles⟩ :=
      Dialogue.send_settles handler state hvalid hsetup hq hr
    obtain rfl : start = start' := Option.some.inj (hstart.symm.trans hstart')
    refine Dialogue.exists_schedules fun dialogue request ⟨actions, hh, hrun, hidle⟩ => ?_
    obtain ⟨last, -, hlast⟩ := hsettles actions dialogue hh hrun hidle
    exact ⟨_, Dialogue.exists_makes hidle (hlast request)⟩
  · intro connect send hconnect hschedules first
    obtain ⟨hresults, -⟩ := hsame send hschedules (invocation.values.map request)
    obtain ⟨output, sent, hrun, hrun'⟩ := run_of_sendAll hresults
    refine ⟨?_, ?_⟩
    · rw [hrun, hrun']
      exact (hsame send hschedules sent).2
    · refine (program_of_connect hasks hconnect send _).trans ?_
      rw [program_of_connect hasks (hasks.connect hvalid state), hrun, hrun']
      simp only [Client.isOk_disconnect, Exchange.isOk_disconnect]

end CommandLine.Client

end Parley
