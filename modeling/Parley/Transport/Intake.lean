import Parley.Buffer.Pair
import Parley.Frame.Assembly
import Parley.Transport.Receiver

/-!
# The two threads of a connection

A connection's pump reads the socket and writes what it gets to a bounded buffer. Its owner
puts frames together from the other end of the buffer, and reads a message when it wants one.

**Failures.** When a read of the socket fails, the pump leaves the failure in a slot and then
closes the buffer. The owner looks into the slot when its stream has ended, so the failure
comes after all that was received before it, takes the place of the end, and is told once.

**Giving up.** The owner shuts the socket down, gives up its end of the buffer, which frees a
pump that waits for room, and then waits for the pump to finish.

**Moves.** A `Move` is one turn of one of the threads, or a read of the socket that comes to
its end, and a run is any list of them. A thread that waits may be resumed at any time; it is
`awake` if it does not wait or has been notified.
-/

namespace Parley.Transport

/-- The most bytes that the pump reads at once. -/
def pumpSize : Nat := 8192

/-- Where the pump stands. -/
inductive Pump
  /-- It reads the socket. -/
  | receiving
  /-- It is about to write what it read. -/
  | forwarding (chunk : List UInt8)
  /-- It is in the middle of a write. -/
  | parked
  /-- It is about to leave a failure in the slot. -/
  | reporting (failure : Failure)
  /-- It is about to close the buffer. -/
  | closing
  | finished
  deriving DecidableEq, Repr

/-- Where the owner stands. -/
inductive Owner
  | idle
  /-- It reads a frame. -/
  | reading (assembly : Frame.Assembly)
  /-- Its stream has ended; without a failure in the slot this is the report. -/
  | ending (report : Report)
  /-- It is about to shut the socket down. -/
  | leaving
  /-- It is about to give up its end of the buffer. -/
  | releasing
  /-- It waits for the pump to finish. -/
  | joining
  | gone

/-- What the two threads of a connection share, and where they stand. -/
structure Intake where
  /-- The largest body accepted. -/
  max : UInt32
  pair : Buffer.Pair
  pump : Pump := .receiving
  /-- A failure that the owner has not been told of. -/
  slot : Option Failure := none
  owner : Owner := .idle
  /-- The owner has shut the socket down. -/
  shut : Bool := false

inductive Move
  /-- A read of the socket brings bytes, its end as no bytes, or a failure. -/
  | arrive (arrival : Except Failure (List UInt8))
  | pump
  /-- The owner wants a message. -/
  | read
  | owner
  /-- The owner gives the connection up. -/
  | leave

/-- Where a turn of a write leaves the pump. -/
def Pump.afterWrite : List Buffer.Event → Pump
  | .wrote _ _ (.ok ()) :: _ => .receiving
  | .wrote _ _ (.error _) :: _ => .closing
  | _ => .parked

namespace Intake

/-- The threads of a new connection. -/
def ofConfig? (config : Config) : Option Intake :=
  (Buffer.Pair.ofCapacity? config.bufferCapacity).map fun pair =>
    { max := config.maxFrameSize, pair }

/-- A read of the socket comes to its end. -/
def arrive (intake : Intake) (arrival : Except Failure (List UInt8)) : Option Intake :=
  match intake.pump, arrival with
  | .receiving, .ok [] => some { intake with pump := .closing }
  | .receiving, .ok chunk =>
    if chunk.length ≤ pumpSize then some { intake with pump := .forwarding chunk } else none
  | .receiving, .error failure =>
    some (if failure.kind = .interrupted then intake
      else { intake with pump := .reporting failure })
  | _, _ => none

/-- A turn of the pump outside of the socket. -/
def pumpTurn (intake : Intake) : Option Intake :=
  let write (action : Buffer.Action) : Option Intake := do
    let (pair, events) ← intake.pair.step action
    return { intake with pair, pump := .afterWrite events }
  match intake.pump with
  | .forwarding chunk => write (.write chunk)
  | .parked => write .resumeWrite
  | .reporting failure => some { intake with slot := some failure, pump := .closing }
  | .closing => do
    let (pair, _) ← intake.pair.step .dropWriter
    return { intake with pair, pump := .finished }
  | .receiving | .finished => none

/-- A frame came to its end. -/
def conclude (intake : Intake) : Frame.Outcome → Intake × Option Report
  | .body body => ({ intake with owner := .idle }, some (.ofBody body))
  | .ended => ({ intake with owner := .ending (.ok none) }, none)
  | .error error =>
    let report : Report := .error (.frame error)
    match error with
    | .truncated .. => ({ intake with owner := .ending report }, none)
    | _ => ({ intake with owner := .idle }, some report)

/-- The owner goes on with a frame after a turn of its read. -/
def tell (intake : Intake) (assembly : Frame.Assembly) :
    List Buffer.Event → Intake × Option Report
  | .read _ result :: _ =>
    match assembly.receive intake.max (.ok (result.getD [])) with
    | .more next => ({ intake with owner := .reading next }, none)
    | .done outcome => intake.conclude outcome
  | _ => (intake, none)

/-- A turn of the owner, and its report if it has come to one. -/
def ownerTurn (intake : Intake) : Option (Intake × Option Report) :=
  match intake.owner with
  | .reading assembly => do
    let action : Buffer.Action := match intake.pair.reading with
      | .waiting _ => .resumeRead
      | _ => .read assembly.demand
    let (pair, events) ← intake.pair.step action
    return { intake with pair }.tell assembly events
  | .ending report =>
    match intake.slot with
    | some failure =>
      some ({ intake with slot := none, owner := .idle }, some (.error (.failed failure)))
    | none => some ({ intake with owner := .idle }, some report)
  | .leaving => some ({ intake with shut := true, owner := .releasing }, none)
  | .releasing => do
    let (pair, _) ← intake.pair.step .dropReader
    return ({ intake with pair, owner := .joining }, none)
  | .joining =>
    if intake.pump = .finished then some ({ intake with owner := .gone }, none) else none
  | .idle | .gone => none

/-- The move of a thread that can make it, and the report that it brings. -/
def step (intake : Intake) : Move → Option (Intake × Option Report)
  | .arrive arrival => (intake.arrive arrival).map (·, none)
  | .pump => intake.pumpTurn.map (·, none)
  | .owner => intake.ownerTurn
  | .read =>
    match intake.owner with
    | .idle => some ({ intake with owner := .reading .start }, none)
    | _ => none
  | .leave =>
    match intake.owner with
    | .idle => some ({ intake with owner := .leaving }, none)
    | _ => none

/-- A run of moves, each of which its thread can make, with the reports in order. -/
def run (intake : Intake) : List Move → Option (Intake × List Report)
  | [] => some (intake, [])
  | move :: moves => do
    let (intake, report) ← intake.step move
    let (intake, reports) ← intake.run moves
    return (intake, report.toList ++ reports)

/-- The thread of a move does not wait, or no longer. -/
def awake (intake : Intake) : Move → Bool
  | .pump => intake.pair.buffer.writer != .waiting
  | .owner => intake.pair.buffer.reader != .waiting
  | _ => true

end Intake

/-- What the reads of the socket brought in a run. -/
def Move.arrivals (moves : List Move) : List (Except Failure (List UInt8)) :=
  moves.filterMap fun
    | .arrive arrival => some arrival
    | _ => none

end Parley.Transport
