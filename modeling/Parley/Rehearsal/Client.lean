import Parley.Client
import Parley.Network
import Parley.Rehearsal.Answer
import Parley.Transport.Setup

/-!
# Rehearsing a client

A client sends requests to a server that follows a plan: it may greet, and it answers each
request frame with the next of its actions. Without a further action it closes.
-/

namespace Parley.Rehearsal.Client

/-- How the server answers a request. -/
inductive Answering
  /-- With the body it got. -/
  | echo
  /-- With these bytes as they are. -/
  | reply (bytes : List UInt8)
  | message (message : Message)
  /-- Not at all. -/
  | hold

/-- What the server does with a request. -/
structure Action where
  answering : Answering
  /-- It closes afterwards. -/
  closes : Bool := false

/-- The plan of the server. -/
structure Plan where
  greeting : List UInt8 := []
  closesFirst : Bool := false
  actions : List Action := []

inductive Step
  | send (message : Message)
  | disconnect
  /-- Keeps a handle that can close the connection. -/
  | closer
  /-- Closes the connection with that handle. -/
  | close
  /-- Sends, and closes the connection once the server has the request. -/
  | sendThenClose (message : Message)
  | peerMatches

/-- Client and server between two steps. -/
structure Session where
  client : Client
  receiver : Receiver
  timeout : Option Nat
  /-- The server's actions still to come, while it is connected. -/
  actions : Option (List Action)
  /-- The bodies that the server got. -/
  received : List (List UInt8) := []
  /-- A handle that can close the connection was kept. -/
  hasCloser : Bool := false
  /-- The connection was closed with it. -/
  closed : Bool := false

namespace Session

/-- The bytes that answer a request body. -/
def answerBytes (body : List UInt8) : Answering → List UInt8
  | .echo => Frame.encode body
  | .reply bytes => bytes
  | .message message => Frame.encode message.encode
  | .hold => []

/-- The server gets a request. -/
def serve (session : Session) (body : List UInt8) : Session :=
  match session.actions with
  | none => session
  | some actions =>
    let session := { session with received := session.received ++ [body] }
    match actions with
    | [] => { session with actions := none, receiver := session.receiver.stop .ended }
    | action :: actions =>
      let receiver := session.receiver.deliver (answerBytes body action.answering)
      if action.closes then { session with actions := none, receiver := receiver.stop .ended }
      else { session with actions := some actions, receiver }

/-- Closes the connection from this side. -/
def close (session : Session) : Session :=
  { session with closed := true, actions := none, receiver := session.receiver.stop .ended }

/-- What the connection brings next, if need be after time has passed. -/
def read (session : Session) :
    Except Fault (Report × Session) :=
  match session.receiver.read with
  | (some result, receiver) => .ok (result, { session with receiver })
  | (none, receiver) =>
    if session.timeout.isNone then .error .endless
    else
      match (receiver.stop (.failed .readTimedOut)).read with
      | (some result, receiver) => .ok (result, { session with receiver })
      | (none, _) => .error .endless

/-- Sends a request; `close` says that the connection is closed once the server has it. -/
def send (session : Session) (message : Message) (close : Bool) :
    Except Fault (Answer × Session) := do
  let write (_ : List UInt8) : Except Failure Unit :=
    if session.closed then .error .brokenPipe else .ok ()
  let sends := session.client.connected && !session.closed
    && (message.frame session.client.max).isOk
  let session := if sends then session.serve message.encode else session
  let session := if sends && close then session.close else session
  let (read, session) ← if sends then session.read else pure (.ok none, session)
  let (result, client) := session.client.send message write read
  return (.ofMessage result, { session with client })

def step (session : Session) : Step → Except Fault (Answer × Session)
  | .send message => session.send message false
  | .disconnect =>
    let (result, client) := session.client.disconnect (.ok ())
    .ok (.ofUnit result, { session with client, actions := none })
  | .closer =>
    let result := session.client.closer
    .ok (.ofUnit result, { session with hasCloser := session.hasCloser || result.isOk })
  | .close =>
    if session.hasCloser then .ok (.ok, session.close) else .error .noCloser
  | .sendThenClose message =>
    match session.client.closer with
    | .error error => .ok (.error error, session)
    | .ok () => session.send message true
  | .peerMatches => .ok (.truth true, session)

/-- Works through the steps. Each answer comes with whether the client is still connected. -/
def run (session : Session) : List Step → Except Fault (List (Answer × Bool) × Session)
  | [] => .ok ([], session)
  | step :: steps => do
    let (answer, session) ← session.step step
    let (answers, last) ← session.run steps
    return ((answer, session.client.connected) :: answers, last)

end Session

/-- How a rehearsal came out. -/
inductive Outcome
  /-- The client could not connect. -/
  | refused (error : TransportError)
  | done (answers : List (Answer × Bool)) (received : List (List UInt8))

/-- Connects a client to a server with a plan, or to nobody. -/
def connect (network : Network) (config : Config) (plan : Option Plan) :
    Except TransportError Session := do
  Parley.Transport.validate config
  (network.connect plan.isSome).mapError .failed
  Parley.Transport.setUp config
  let plan := plan.getD {}
  let receiver : Receiver := { max := config.maxFrameSize, pending := plan.greeting }
  return {
    client := { max := config.maxFrameSize }
    receiver := if plan.closesFirst then receiver.stop .ended else receiver
    timeout := config.readTimeout
    actions := if plan.closesFirst then none else some plan.actions }

/-- Connects and works through the steps. -/
def run (network : Network) (config : Config) (plan : Option Plan) (steps : List Step) :
    Except Fault Outcome :=
  match connect network config plan with
  | .error error => .ok (.refused error)
  | .ok session => do
    let (answers, session) ← session.run steps
    return .done answers session.received

end Parley.Rehearsal.Client
