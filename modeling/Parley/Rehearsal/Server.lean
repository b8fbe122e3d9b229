import Parley.Exchange
import Parley.Network
import Parley.Rehearsal.Answer

/-!
# Rehearsing a server

A server serves connections whose other ends the script holds: as they are, or as clients. The
script has numbers of its own for them, while the server counts connections in the order in
which it accepts them.

**Progress.** After each step every worker has gone as far as it can. Time passes when a step
would wait otherwise, and then every worker and every client that waits longer than its
timeout is timed out.
-/

namespace Parley.Rehearsal.Server

open Parley.Server (Connection)

inductive Step
  /-- Connects an end that is held as it is. -/
  | connect (number : Nat)
  | client (number : Nat) (config : Config)
  | send (number : Nat) (bytes : List UInt8)
  | sendMessage (number : Nat) (message : Message)
  /-- Receives a frame. -/
  | receive (number : Nat)
  /-- Ends the sending. -/
  | halfClose (number : Nat)
  | call (number : Nat) (message : Message)
  | disconnect (number : Nat)
  /-- Gives up the ends of a number. -/
  | drop (number : Nat)
  /-- Waits for a number of connections. -/
  | waitActive (count : Nat)
  | localHost
  /-- Starts a second server at the same address. -/
  | bindAgain
  | stop

/-- How the script holds the other end of a connection. -/
inductive Holder
  | asIs
  | client (client : Client) (timeout : Option Nat)

/-- A connection between two steps. -/
structure Line where
  number : Nat
  /-- None once the script has given its end up. -/
  holder : Option Holder
  connection : Connection

namespace Line

/-- The script holds the other end under this number, as a client or as it is. -/
def isHeld (line : Line) (number : Nat) (asClient : Bool) : Bool :=
  line.number == number &&
    match line.holder with
    | some .asIs => !asClient
    | some (.client ..) => asClient
    | none => false

/-- The other end sends bytes. -/
def deliver (line : Line) (bytes : List UInt8) : Line :=
  { line with connection := line.connection.deliver bytes }

/-- The other end sends no more. -/
def stop (line : Line) (ending : Ending) : Line :=
  { line with connection := line.connection.stop ending }

/-- The script gives its end up. Responses that nobody received reset the connection. -/
def release (line : Line) : Line :=
  let unread := match line.holder with
    | some .asIs => !line.connection.responses.pending.isEmpty
    | _ => false
  { line.stop (if unread then .failed .reset else .ended) with holder := none }

/-- Time passes for both ends. -/
def expire (config : Config) (line : Line) : Line :=
  let line := if config.readTimeout.isSome then line.stop (.failed .readTimedOut) else line
  match line.holder with
  | some (.client _ (some _)) =>
    let responses := line.connection.responses.stop (.failed .readTimedOut)
    { line with connection := { line.connection with responses } }
  | _ => line

end Line

/-- Server and connections between two steps. -/
structure Session (σ : Type) where
  network : Network
  address : Address
  config : Config
  handler : Handler σ
  /-- What the handler keeps. -/
  state : σ
  /-- All connections so far in the order of accepting. -/
  lines : List Line := []
  stopped : Bool := false

namespace Session

variable {σ : Type}

/-- Puts a connection in its place after its worker has gone as far as it can. -/
def put (session : Session σ) (id : Nat) (line : Line) : Session σ :=
  let (connection, state) := line.connection.work session.handler session.state
  { session with state, lines := session.lines.set id { line with connection } }

/-- Changes every connection. -/
def update (session : Session σ) (change : Line → Line) : Session σ :=
  session.lines.zipIdx.foldl (fun session (line, id) => session.put id (change line)) session

/-- Time passes. -/
def expire (session : Session σ) : Session σ := session.update (Line.expire session.config)

/-- The place and the state of the end that a step asks for. -/
def held? (session : Session σ) (number : Nat) (asClient : Bool) : Option (Nat × Line) :=
  (session.lines.zipIdx.find? fun (line, _) => line.isHeld number asClient).map Prod.swap

/-- The connections whose workers are still at their service. -/
def active (session : Session σ) : Nat := session.lines.countP (·.connection.isActive)

/-- Accepts a connection. An end that was held in the same way under the number is given up. -/
def accept (session : Session σ) (number : Nat) (holder : Option Holder) (max : UInt32) :
    Session σ :=
  let session := match session.held? number (holder matches some (.client ..)) with
    | some (id, earlier) => if holder.isSome then session.put id earlier.release else session
    | none => session
  let line : Line := { number, holder, connection := .accept session.config max }
  let line := if holder.isSome then line else line.stop .ended
  let id := session.lines.length
  { session with lines := session.lines ++ [line] }.put id line

/-- Connects an end that is held as it is. -/
def connect (session : Session σ) (number : Nat) : Answer × Session σ :=
  match session.network.connect !session.stopped with
  | .error failure => (.error (.failed failure), session)
  | .ok () => (.ok, session.accept number (some .asIs) unlimited)

/-- Connects a client. -/
def connectClient (session : Session σ) (number : Nat) (config : Config) : Answer × Session σ :=
  match Parley.Transport.validate config, session.network.connect !session.stopped with
  | .error error, _ => (.error error, session)
  | .ok (), .error failure => (.error (.failed failure), session)
  | .ok (), .ok () =>
    match Parley.Transport.setUp config with
    | .error error => (.error error, session.accept number none config.maxFrameSize)
    | .ok () =>
      let holder := .client { max := config.maxFrameSize } config.readTimeout
      (.ok, session.accept number (some holder) config.maxFrameSize)

/-- The end held as it is that a step asks for. -/
def raw (session : Session σ) (number : Nat) : Except Fault (Nat × Line) :=
  match session.held? number false with
  | some found => .ok found
  | none => .error .noConnection

/-- Receives a frame, if need be after time has passed. -/
def receive (session : Session σ) (number : Nat) : Except Fault (Answer × Session σ) := do
  let receiveFrom (session : Session σ) : Except Fault (Answer × Session σ) := do
    let (id, line) ← session.raw number
    let connection := line.connection
    let responses := connection.responses
    let (answer, pending) ← takeFrame responses.pending responses.ending.isSome
    let connection := { connection with responses := { responses with pending } }
    return (answer, session.put id { line with connection })
  match receiveFrom session with
  | .error .endless => receiveFrom session.expire
  | result => result

/-- Lets a client that the script holds do something. -/
def withClient {α : Type} (session : Session σ) (number : Nat)
    (act : Exchange σ → α × Exchange σ) : Except Fault (α × Session σ) := do
  let some (id, line) := session.held? number true | throw .noClient
  let some (.client client timeout) := line.holder | throw .noClient
  let (result, exchange) :=
    act { client, connection := line.connection, state := session.state }
  let line := { line with
    holder := some (.client exchange.client timeout), connection := exchange.connection }
  return (result, { session with state := exchange.state }.put id line)

/-- Sends a request with a client and waits for the response. -/
def call (session : Session σ) (number : Nat) (message : Message) :
    Except Fault ((Answer × Bool) × Session σ) :=
  session.withClient number fun exchange =>
    let (result, exchange) := exchange.send session.handler message
    ((.ofMessage result, exchange.client.connected), exchange)

/-- Gives up the connection of a client. -/
def disconnect (session : Session σ) (number : Nat) : Except Fault (Answer × Session σ) :=
  session.withClient number fun exchange =>
    let (result, exchange) := exchange.disconnect
    (.ofUnit result, exchange)

/-- Gives up the ends of a number. -/
def drop (session : Session σ) (number : Nat) : Session σ :=
  session.update fun line =>
    if line.number = number && line.holder.isSome then line.release else line

/-- Waits for a number of connections, if need be until time has passed. -/
def waitActive (session : Session σ) (count : Nat) : Answer × Session σ :=
  if session.active = count then (.reached true, session)
  else
    let session := session.expire
    (.reached (session.active = count), session)

/-- Every connection is shut down, and no more are accepted. -/
def stop (session : Session σ) : Session σ :=
  { session.update (Line.stop · .ended) with stopped := true }

/-- What a step comes to. For a call there is also whether the client is still connected. -/
def step (session : Session σ) : Step → Except Fault ((Answer × Option Bool) × Session σ)
  | .call number message => do
    let ((answer, connected), session) ← session.call number message
    return ((answer, some connected), session)
  | step => do
    let (answer, session) ← match step with
      | .connect number => pure (session.connect number)
      | .client number config => pure (session.connectClient number config)
      | .send number bytes => do
        let (id, line) ← session.raw number
        pure (.ok, session.put id (line.deliver bytes))
      | .sendMessage number message => do
        let (id, line) ← session.raw number
        pure (.ok, session.put id (line.deliver (Frame.encode message.encode)))
      | .receive number => session.receive number
      | .halfClose number => do
        let (id, line) ← session.raw number
        pure (.ok, session.put id (line.stop .ended))
      | .disconnect number => session.disconnect number
      | .drop number => pure (.ok, session.drop number)
      | _ =>
        if session.stopped then throw .noServer
        else
          match step with
          | .waitActive count => pure (session.waitActive count)
          | .bindAgain =>
            let bound := (Network.listen session.address true).mapError TransportError.failed
            pure (.ofUnit bound, session)
          | .stop => pure (.ok, session.stop)
          | _ => pure (.text session.address.host.text, session)
    return ((answer, none), session)

/-- Works through the steps. -/
def run (session : Session σ) :
    List Step → Except Fault (List (Answer × Option Bool) × Session σ)
  | [] => .ok ([], session)
  | step :: steps => do
    let (answer, session) ← session.step step
    let (answers, last) ← session.run steps
    return (answer :: answers, last)

/-- The warnings about dropped connections in the order of their texts. -/
def warnings (session : Session σ) : List String :=
  (session.lines.zipIdx.filterMap fun (line, id) => line.connection.warning? id).mergeSort

end Session

/-- How a rehearsal came out. -/
inductive Outcome
  /-- The server could not be started. -/
  | refused (error : TransportError)
  | done (answers : List (Answer × Option Bool)) (warnings : List String)

/-- Starts a server at an address. -/
def start {σ : Type} (network : Network) (address : Address) (config : Config)
    (handler : Handler σ) (state : σ) : Except TransportError (Session σ) := do
  Parley.Transport.validate config
  (Network.listen address false).mapError .failed
  return { network, address, config, handler, state }

/-- Starts a server, works through the steps, and stops it. -/
def run {σ : Type} (network : Network) (address : Address) (config : Config)
    (handler : Handler σ) (state : σ) (steps : List Step) : Except Fault Outcome :=
  match start network address config handler state with
  | .error error => .ok (.refused error)
  | .ok session => do
    let (answers, session) ← session.run steps
    return .done answers session.stop.warnings

end Parley.Rehearsal.Server
