import Parley.Client.Line

/-!
# The life of a client

A client is called again and again: to send a request, to disconnect, or for a handle that can close
its connection from elsewhere. One call is under way at a time, and the handle may be used at any
time. Each call that has returned is written down with what it returned.

**Disconnecting.** The client has given its connection up from the start. It shuts the socket down,
which may fail, and returns what came of that once its pump has finished.

**What a send comes to.** Beside the result of a send that used the connection stands what writing
the request and reading the response came to.
-/

namespace Parley

/-- A call of a client. -/
inductive Call
  | send (request : Message)
  /-- Disconnects; this comes of shutting the socket down. -/
  | disconnect (shutDown : Except Failure Unit)
  /-- Asks for a handle; this comes of copying the socket. -/
  | closer (copy : Except Failure Unit)

/-- A call that has returned, and its result. -/
inductive Event
  /-- A send; `came` is what writing and reading came to, if it did either. -/
  | sent (request : Message) (came : Option Report) (result : Except TransportError Message)
  | disconnected (result : Except TransportError Unit)
  | closer (result : Except TransportError Unit)

/-- What a move brings out about the send under way: that the request has no frame, that writing it
failed, or what reading the response came to. -/
def Line.comes? (line : Line) : Line.Action → Option Report
  | .send request =>
    match line.caller.asking, line.caller.client.connected,
        request.frame line.caller.client.max with
    | .idle, true, .error error => some (.error error)
    | _, _, _ => none
  | .push _ =>
    match line.caller.asking, line.responses.cut with
    | .writing _ (_ :: _), true => some (.error (.frame (.failed .brokenPipe)))
    | _, _ => none
  | .refuse failure =>
    match line.caller.asking with
    | .writing _ _ =>
      if failure.kind = .interrupted then none else some (.error (.frame (.failed failure)))
    | _ => none
  | .owner =>
    match line.caller.asking with
    | .awaiting _ => line.caller.intake.ownerTurn.bind fun (_, report) => report
    | _ => none
  | .deliver _ | .hangUp | .pull _ | .fail _ | .pump | .close => none

/-- A client with its connection and what it has returned. -/
structure Session where
  line : Line
  /-- What the send under way came to, once this is known. -/
  came : Option Report := none
  /-- What the disconnect under way will return. -/
  parting : Option (Except TransportError Unit) := none
  log : List Event := []

namespace Session

inductive Action
  | call (call : Call)
  /-- The client, its pump, its socket or its peer makes a move, or somebody uses the handle. -/
  | move (action : Line.Action)

/-- No call is under way. -/
def atRest (session : Session) : Bool :=
  match session.line.caller.asking, session.parting with
  | .idle, none => true
  | _, _ => false

/-- A call has returned. -/
def note (session : Session) (event : Event) : Session :=
  { session with log := session.log ++ [event] }

/-- The connection makes a move, after which the call under way may return. -/
def goes (session : Session) (action : Line.Action) : Option Session := do
  let line ← session.line.step action
  let came := session.line.comes? action <|> session.came
  match line.caller.answered.drop session.line.caller.answered.length, session.parting with
  | (request, result) :: _, _ =>
    return { session with line, came := none }.note (.sent request came result)
  | [], some result =>
    match line.caller.intake.owner with
    | .gone => return { session with line, parting := none }.note (.disconnected result)
    | _ => return { session with line }
  | [], none => return { session with line, came }

/-- The client is asked to disconnect. -/
def disconnect (session : Session) (shutDown : Except Failure Unit) : Session :=
  let caller := session.line.caller
  let (result, client) := caller.client.disconnect shutDown
  if caller.client.connected then
    let intake := { caller.intake with owner := .leaving }
    let line := { session.line with caller := { caller with client, intake } }
    { session with line := if shutDown.isOk then line.close else line, parting := some result }
  else session.note (.disconnected result)

/-- The client is called. -/
def begin (session : Session) : Call → Option Session
  | .send request => session.goes (.send request)
  | .disconnect shutDown => some (session.disconnect shutDown)
  | .closer copy => some (session.note (.closer do
      session.line.caller.client.closer
      copy.mapError .failed))

/-- A call, if none is under way, or a move of the party that can make it. -/
def step (session : Session) : Action → Option Session
  | .call call => if session.atRest then session.begin call else none
  | .move (.send _) => none
  | .move action => session.goes action

/-- A run of calls and moves, each of which can be made. -/
def run (session : Session) (actions : List Action) : Option Session :=
  actions.foldlM step session

/-- A client has connected; its socket holds so many bytes that it has not read. -/
def start? (config : Config) (capacity : Nat) : Option Session :=
  (Line.start? config capacity).map fun line => { line }

end Session

end Parley
