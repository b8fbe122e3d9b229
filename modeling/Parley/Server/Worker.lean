import Parley.Server.Service
import Parley.Transport.Intake
import Parley.Transport.Setup

/-!
# The worker of a connection

A worker is the owner of its connection. It reads a request, hands it to the handler, writes
the response, and only then reads the next request. When something goes wrong, or at a clean
end between requests, it gives the connection up, and tells what its service came to once its
pump has finished.

**Moves.** A move is one turn of the pump or of the worker, a read of the socket that comes to
its end, or a number of bytes that the socket takes.
-/

namespace Parley

open Transport (Intake)

/-- Where a worker stands. -/
inductive Serving
  | reading
  /-- It writes the frame of a response, of which these bytes are left. -/
  | writing (left : List UInt8)
  /-- It gives the connection up. -/
  | leaving (status : ServiceStatus)
  | done (status : ServiceStatus)

/-- A worker in the middle of its service. -/
structure Worker (σ : Type) where
  handler : Handler σ
  /-- What the handler keeps. -/
  state : σ
  intake : Intake
  serving : Serving := .reading
  /-- The requests that were handed to the handler, with its replies. -/
  handled : List (Message × Reply) := []

namespace Worker

inductive Move
  /-- A read of the socket brings bytes, its end as no bytes, or a failure. -/
  | arrive (arrival : Except Failure (List UInt8))
  | pump
  | owner
  /-- The socket takes so many of the bytes that are written to it. -/
  | push (n : Nat)

/-- The move of the connection's own threads that a move is, unless it is one of the socket
that is written to. -/
def Move.inner? : Move → Option Transport.Move
  | arrive arrival => some (.arrive arrival)
  | pump => some .pump
  | owner => some .owner
  | push _ => none

/-- What the reads of the socket brought in a run. -/
def Move.arrivals (moves : List Move) : List (Except Failure (List UInt8)) :=
  Transport.Move.arrivals (moves.filterMap inner?)

variable {σ : Type}

/-- The worker ends its service. -/
def quit (worker : Worker σ) (status : ServiceStatus) : Worker σ :=
  { worker with
    serving := .leaving status
    intake := { worker.intake with owner := .leaving } }

/-- A write of the socket fails. -/
def breakOff (worker : Worker σ) (failure : Failure) : Option (Worker σ) :=
  match worker.serving with
  | .writing _ => some (worker.quit (.dropped (.frame (.failed failure))))
  | _ => none

/-- The worker hands a request to the handler. -/
def handle (worker : Worker σ) (request : Message) : Worker σ :=
  let (reply, state) := worker.handler worker.state request
  let worker := { worker with state, handled := worker.handled ++ [(request, reply)] }
  match reply with
  | .refusal text => worker.quit (.dropped (.handler text))
  | .crash => worker.quit .crashed
  | .response response =>
    match response.frame worker.intake.max with
    | .error error => worker.quit (.dropped error)
    | .ok frame => { worker with serving := .writing frame }

/-- The worker has come to the end of a read. -/
def take (worker : Worker σ) : Report → Worker σ
  | .ok (some request) => worker.handle request
  | .ok none => worker.quit .closed
  | .error error => worker.quit (.dropped error)

/-- A turn of the worker at its connection. -/
def turn (worker : Worker σ) : Option (Worker σ) := do
  let (intake, report) ← worker.intake.ownerTurn
  let worker := { worker with intake }
  return match worker.serving, report, intake.owner with
    | .reading, some report, _ => worker.take report
    | .leaving status, _, .gone => { worker with serving := .done status }
    | _, _, _ => worker

/-- The socket takes up to `n` bytes of a response. Once it has taken all of them the worker
reads the next request. -/
def push (worker : Worker σ) (n : Nat) : Option (Worker σ × List UInt8) :=
  match worker.serving with
  | .writing [] => some ({ worker with
      serving := .reading
      intake := { worker.intake with owner := .reading .start } }, [])
  | .writing left =>
    if n = 0 then none
    else some ({ worker with serving := .writing (left.drop n) }, left.take n)
  | _ => none

/-- The move of a worker that can make it, and the bytes that the socket takes. -/
def step (worker : Worker σ) : Move → Option (Worker σ × List UInt8)
  | .arrive arrival =>
    (worker.intake.arrive arrival).map fun intake => ({ worker with intake }, [])
  | .pump => worker.intake.pumpTurn.map fun intake => ({ worker with intake }, [])
  | .owner => worker.turn.map (·, [])
  | .push n => worker.push n

/-- A run of moves, each of which its thread can make, with the bytes that the socket took. -/
def run (worker : Worker σ) : List Move → Option (Worker σ × List UInt8)
  | [] => some (worker, [])
  | move :: moves => do
    let (worker, bytes) ← worker.step move
    let (worker, more) ← worker.run moves
    return (worker, bytes ++ more)

/-- The thread of a move does not wait, or no longer. -/
def awake (worker : Worker σ) (move : Move) : Bool :=
  match move.inner? with
  | some inner => worker.intake.awake inner
  | none => true

/-- The worker of a new connection reads its first request. -/
def ofConfig? (handler : Handler σ) (state : σ) (config : Config) : Option (Worker σ) :=
  (Intake.ofConfig? config).map fun intake =>
    { handler, state, intake := { intake with owner := .reading .start } }

/-- A service begins, unless the socket refuses the settings. -/
def start (handler : Handler σ) (state : σ) (config : Config) :
    Except TransportError (Worker σ) := do
  Transport.setUp config
  match ofConfig? handler state config with
  | some worker => return worker
  | none => throw (.config .zeroCapacity)

end Worker

end Parley
