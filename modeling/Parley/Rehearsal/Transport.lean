import Parley.Network
import Parley.Rehearsal.Answer
import Parley.Transport.Receiver
import Parley.Transport.Setup

/-!
# Rehearsing one end of a connection

One end of a connection reads and writes messages; the other sends and receives bytes.
-/

namespace Parley.Rehearsal.Transport

inductive Step
  | peerSend (bytes : List UInt8)
  | peerSendMessage (message : Message)
  /-- The peer ends its sending. -/
  | peerClose
  /-- The peer receives a frame. -/
  | peerReceive
  | read
  | write (message : Message)
  | shutdown
  /-- Whether the address of the peer is the peer's. -/
  | peerMatches
  | drop

/-- A connection between two steps. -/
structure Connection where
  config : Config
  receiver : Receiver
  /-- What was written and the peer has not received. -/
  written : List UInt8 := []
  /-- This end is shut down in both directions. -/
  shut : Bool := false
  /-- This end has been given up. -/
  dropped : Bool := false

namespace Connection

/-- Time passes: a read that waits for the peer runs out of it. -/
def expire (connection : Connection) : Connection :=
  if connection.config.readTimeout.isSome then
    { connection with receiver := connection.receiver.stop (.failed .readTimedOut) }
  else connection

def shutdown (connection : Connection) : Connection :=
  { connection with receiver := connection.receiver.stop .ended, shut := true }

/-- Reads a message, if need be after time has passed. -/
def read (connection : Connection) : Except Fault (Answer × Connection) :=
  match connection.receiver.read with
  | (some result, receiver) => .ok (.ofRead result, { connection with receiver })
  | (none, _) =>
    match connection.expire.receiver.read with
    | (some result, receiver) => .ok (.ofRead result, { connection with receiver })
    | (none, _) => .error .endless

/-- Writes a message. -/
def write (connection : Connection) (message : Message) : Answer × Connection :=
  match message.frame connection.config.maxFrameSize with
  | .error error => (.error error, connection)
  | .ok frame =>
    if connection.shut then (.error (.frame (.failed .brokenPipe)), connection)
    else (.ok, { connection with written := connection.written ++ frame })

def step (connection : Connection) : Step → Except Fault (Answer × Connection)
  | .peerSend bytes =>
    .ok (.ok, { connection with receiver := connection.receiver.deliver bytes })
  | .peerSendMessage message =>
    .ok (.ok, { connection with
      receiver := connection.receiver.deliver (Frame.encode message.encode) })
  | .peerClose => .ok (.ok, { connection with receiver := connection.receiver.stop .ended })
  | .peerReceive => do
    let (answer, written) ← takeFrame connection.written connection.shut
    return (answer, { connection with written })
  | step =>
    if connection.dropped then .error .noTransport
    else
      match step with
      | .read => connection.read
      | .write message => .ok (connection.write message)
      | .shutdown => .ok (.ok, connection.shutdown)
      | .drop => .ok (.ok, { connection.shutdown with dropped := true })
      | _ => .ok (.truth true, connection)

/-- Works through the steps. -/
def run (connection : Connection) : List Step → Except Fault (List Answer)
  | [] => .ok []
  | step :: steps => do
    let (answer, connection) ← connection.step step
    return answer :: (← connection.run steps)

end Connection

/-- How a rehearsal came out. -/
inductive Outcome
  /-- The two ends could not be connected. -/
  | unconnected (failure : Failure)
  /-- The settings were refused. -/
  | refused (error : TransportError)
  | done (answers : List Answer)

/-- Connects the two ends, has the peer send `preload`, and works through the steps. -/
def run (network : Network) (config : Config) (preload : List UInt8) (steps : List Step) :
    Except Fault Outcome :=
  match network.connect true, Parley.Transport.setUp config with
  | .error failure, _ => .ok (.unconnected failure)
  | .ok (), .error error => .ok (.refused error)
  | .ok (), .ok () => do
    let receiver : Receiver := { max := config.maxFrameSize, pending := preload }
    return .done (← Connection.run { config, receiver } steps)

end Parley.Rehearsal.Transport
