import Parley.Client.Caller
import Parley.Exchange.Wire
import Parley.Server.Worker

/-!
# A client and a worker over two wires

A client and the worker of its connection with all that lies between them: the two wires and
the two threads at each end. The client sends a request and reads the response; the worker
reads a request, hands it to the handler and sends the response.

**Moves.** A move is one turn of one of the four threads, a number of bytes that a wire takes
or brings, or a read or a write of a socket that fails. A run is any list of moves, so it is
any interleaving of the threads, any segmentation of the two streams and any point of failure.

**Giving up.** An end that gives the connection up shuts its socket down, waits for its pump to
finish, and tells what it came to only then.
-/

namespace Parley

open Transport (Intake)

/-- A client and a worker in the middle of what they do. -/
structure Dialogue (σ : Type) where
  caller : Caller
  /-- From the client to the worker. -/
  requests : Wire
  /-- From the worker to the client. -/
  responses : Wire
  worker : Worker σ

namespace Dialogue

inductive Side
  | client
  | server
  deriving DecidableEq, Repr

inductive Action
  /-- The client is asked to send a request. -/
  | send (request : Message)
  /-- A socket takes so many of the bytes that are written to it. -/
  | push (side : Side) (n : Nat)
  /-- A write of a socket fails. -/
  | refuse (side : Side) (failure : Failure)
  /-- A read of a socket brings up to so many bytes. -/
  | pull (side : Side) (n : Nat)
  /-- A read of a socket fails. -/
  | fail (side : Side) (failure : Failure)
  | pump (side : Side)
  | owner (side : Side)
  /-- The connection is closed from elsewhere on this side. -/
  | close (side : Side)

variable {σ : Type}

def intake (dialogue : Dialogue σ) : Side → Intake
  | .client => dialogue.caller.intake
  | .server => dialogue.worker.intake

/-- The wire that a side receives from. -/
def incoming (dialogue : Dialogue σ) : Side → Wire
  | .client => dialogue.responses
  | .server => dialogue.requests

def setIntake (dialogue : Dialogue σ) (side : Side) (intake : Intake) : Dialogue σ :=
  match side with
  | .client => { dialogue with caller := { dialogue.caller with intake } }
  | .server => { dialogue with worker := { dialogue.worker with intake } }

def setIncoming (dialogue : Dialogue σ) (side : Side) (wire : Wire) : Dialogue σ :=
  match side with
  | .client => { dialogue with responses := wire }
  | .server => { dialogue with requests := wire }

/-- Shuts the socket of a side down in both directions. -/
def shutDown (dialogue : Dialogue σ) : Side → Dialogue σ
  | .client => { dialogue with
      requests := { dialogue.requests with ended := true }
      responses := { dialogue.responses with cut := true } }
  | .server => { dialogue with
      requests := { dialogue.requests with cut := true }
      responses := { dialogue.responses with ended := true } }

/-- The client's socket takes bytes; one that is shut down at either end takes none. -/
def pushRequest (dialogue : Dialogue σ) (n : Nat) : Option (Dialogue σ) :=
  match dialogue.caller.asking with
  | .writing _ (_ :: _) =>
    if dialogue.requests.isOpen then do
      let (caller, bytes) ← dialogue.caller.push n
      let requests ← dialogue.requests.send bytes
      return { dialogue with caller, requests }
    else do
      let caller ← dialogue.caller.breakOff .brokenPipe
      return { dialogue with caller }
  | _ => do
    let (caller, _) ← dialogue.caller.push n
    return { dialogue with caller }

/-- The server's socket takes bytes; one that is shut down at either end takes none. -/
def pushResponse (dialogue : Dialogue σ) (n : Nat) : Option (Dialogue σ) :=
  match dialogue.worker.serving with
  | .writing (_ :: _) =>
    if dialogue.responses.isOpen then do
      let (worker, bytes) ← dialogue.worker.push n
      let responses ← dialogue.responses.send bytes
      return { dialogue with worker, responses }
    else do
      let worker ← dialogue.worker.breakOff .brokenPipe
      return { dialogue with worker }
  | _ => do
    let (worker, _) ← dialogue.worker.push n
    return { dialogue with worker }

/-- A write of a socket fails; one that is interrupted is made again. -/
def refuse (dialogue : Dialogue σ) (side : Side) (failure : Failure) : Option (Dialogue σ) :=
  if failure.kind = .interrupted then some dialogue
  else match side with
    | .client => (dialogue.caller.breakOff failure).map fun caller => { dialogue with caller }
    | .server => (dialogue.worker.breakOff failure).map fun worker => { dialogue with worker }

/-- A read of a socket brings what its wire has. -/
def pull (dialogue : Dialogue σ) (side : Side) (n : Nat) : Option (Dialogue σ) :=
  if n = 0 then none
  else do
    let (bytes, wire) ← (dialogue.incoming side).receive n
    let intake ← (dialogue.intake side).arrive (.ok bytes)
    return (dialogue.setIntake side intake).setIncoming side wire

/-- A turn of a side at its connection. One that has come to shut its socket down does so. -/
def turn (dialogue : Dialogue σ) (side : Side) : Option (Dialogue σ) := do
  let next ← match side with
    | .client => dialogue.caller.turn.map fun caller => { dialogue with caller }
    | .server => dialogue.worker.turn.map fun worker => { dialogue with worker }
  let shuts := (next.intake side).shut && !(dialogue.intake side).shut
  return if shuts then next.shutDown side else next

/-- A move of the party that can make it. -/
def step (dialogue : Dialogue σ) : Action → Option (Dialogue σ)
  | .send request => (dialogue.caller.ask request).map fun caller => { dialogue with caller }
  | .push .client n => dialogue.pushRequest n
  | .push .server n => dialogue.pushResponse n
  | .refuse side failure => dialogue.refuse side failure
  | .pull side n => dialogue.pull side n
  | .fail side failure =>
    ((dialogue.intake side).arrive (.error failure)).map (dialogue.setIntake side)
  | .pump side => (dialogue.intake side).pumpTurn.map (dialogue.setIntake side)
  | .owner side => dialogue.turn side
  | .close side => some (dialogue.shutDown side)

/-- A run of moves, each of which its party can make. -/
def run (dialogue : Dialogue σ) (actions : List Action) : Option (Dialogue σ) :=
  actions.foldlM step dialogue

/-- The party of a move does not wait, or no longer. -/
def awake (dialogue : Dialogue σ) : Action → Bool
  | .pump side => (dialogue.intake side).awake .pump
  | .owner side => (dialogue.intake side).awake .owner
  | _ => true

/-- A client connects to a server over wires of given capacities; the worker reads its first
request. -/
def start? (handler : Handler σ) (state : σ) (config serverConfig : Config)
    (requests responses : Nat) : Option (Dialogue σ) := do
  let caller ← Caller.ofConfig? config
  let worker ← Worker.ofConfig? handler state serverConfig
  return {
    caller
    requests := { capacity := requests }
    responses := { capacity := responses }
    worker }

end Dialogue

end Parley
