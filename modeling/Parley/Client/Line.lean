import Parley.Client.Caller
import Parley.Exchange.Wire

/-!
# A client and any peer

A client with its pump and its socket, and a peer of which nothing is known: it may send any bytes
at any time, take what is written to it or not, and hang up.

**Closing.** The connection may be closed from elsewhere, which shuts the socket down. Nothing
more arrives then and nothing can be written, but what has arrived can still be read.
-/

namespace Parley

open Transport (Intake)

/-- A client in the middle of what it does, and what its socket holds for it. -/
structure Line where
  caller : Caller
  /-- From the peer to the client. -/
  responses : Wire

namespace Line

inductive Action
  /-- The client is asked to send a request. -/
  | send (request : Message)
  /-- The socket takes so many of the bytes that are written to it. -/
  | push (n : Nat)
  /-- A write of the socket fails. -/
  | refuse (failure : Failure)
  /-- Bytes from the peer arrive at the socket. -/
  | deliver (bytes : List UInt8)
  /-- The peer sends no more. -/
  | hangUp
  /-- A read of the socket brings up to so many bytes. -/
  | pull (n : Nat)
  /-- A read of the socket fails. -/
  | fail (failure : Failure)
  | pump
  | owner
  /-- The connection is closed from elsewhere. -/
  | close

/-- The socket is shut down. -/
def close (line : Line) : Line :=
  { line with responses := { line.responses with cut := true } }

/-- The socket takes bytes; one that is shut down takes none. -/
def push (line : Line) (n : Nat) : Option Line :=
  match line.caller.asking with
  | .writing _ (_ :: _) =>
    if line.responses.cut then
      (line.caller.breakOff .brokenPipe).map fun caller => { line with caller }
    else (line.caller.push n).map fun (caller, _) => { line with caller }
  | _ => (line.caller.push n).map fun (caller, _) => { line with caller }

/-- A read of the socket brings what has arrived. -/
def pull (line : Line) (n : Nat) : Option Line :=
  if n = 0 then none
  else do
    let (bytes, responses) ← line.responses.receive n
    let intake ← line.caller.intake.arrive (.ok bytes)
    return { caller := { line.caller with intake }, responses }

/-- A turn of the client at its connection. One that has come to shut the socket down does so. -/
def turn (line : Line) : Option Line :=
  line.caller.turn.map fun caller =>
    if caller.intake.shut then { line with caller }.close else { line with caller }

/-- A move of the party that can make it. A write that is interrupted is made again. -/
def step (line : Line) : Action → Option Line
  | .send request => (line.caller.ask request).map fun caller => { line with caller }
  | .push n => line.push n
  | .refuse failure =>
    if failure.kind = .interrupted then some line
    else (line.caller.breakOff failure).map fun caller => { line with caller }
  | .deliver bytes => (line.responses.send bytes).map fun responses => { line with responses }
  | .hangUp => some { line with responses := { line.responses with ended := true } }
  | .pull n => line.pull n
  | .fail failure =>
    (line.caller.intake.arrive (.error failure)).map fun intake =>
      { line with caller := { line.caller with intake } }
  | .pump =>
    line.caller.intake.pumpTurn.map fun intake =>
      { line with caller := { line.caller with intake } }
  | .owner => line.turn
  | .close => some line.close

/-- A run of moves, each of which its party can make. -/
def run (line : Line) (actions : List Action) : Option Line :=
  actions.foldlM step line

/-- The party of a move does not wait, or no longer. -/
def awake (line : Line) : Action → Bool
  | .pump => line.caller.intake.awake .pump
  | .owner => line.caller.intake.awake .owner
  | _ => true

/-- A client has connected; its socket holds so many bytes that it has not read. -/
def start? (config : Config) (capacity : Nat) : Option Line :=
  (Caller.ofConfig? config).map fun caller => { caller, responses := { capacity } }

end Line

end Parley
