import Parley.Buffer.Basic

/-!
# A writer and a reader at one buffer

The two handles of a buffer, each with the operation it is in the middle of. An `Action` is
one turn under the lock: it starts an operation, goes on with one that waits, or gives up the
handle. A run is any list of actions, so it is any interleaving of the two parties.

**Resuming.** A waiting operation may be resumed at any time, notified or not: condition
variables may wake a party without cause. `settle` resumes only parties that were notified;
this is what happens when nothing else does.

**Events.** An operation that comes to its end leaves an event with its result. A write's
event also tells how much of the data was not taken.
-/

namespace Parley.Buffer

/-- What the writer's handle is doing. -/
inductive Writing
  | idle
  /-- A write of `data`, of which `left` has not been taken yet, waits for room. -/
  | waiting (data left : List UInt8)
  | gone
  deriving DecidableEq, Repr

/-- What the reader's handle is doing. -/
inductive Reading
  | idle
  /-- A read of up to `n` bytes waits for one. -/
  | waiting (n : Nat)
  | gone
  deriving DecidableEq, Repr

/-- A buffer with its two handles. -/
structure Pair where
  buffer : Buffer
  writing : Writing := .idle
  reading : Reading := .idle

/-- One turn of a party. -/
inductive Action
  | write (data : List UInt8)
  | resumeWrite
  | close
  | dropWriter
  | read (n : Nat)
  | resumeRead
  | dropReader
  deriving DecidableEq, Repr

/-- An operation that came to its end. -/
inductive Event
  | wrote (data left : List UInt8) (result : Except BufferError Unit)
  /-- A read of up to `n` bytes; no result is the end of the stream. -/
  | read (n : Nat) (result : Option (List UInt8))

namespace Pair

/-- The two handles of a new buffer. -/
def ofCapacity? (capacity : Nat) : Option Pair :=
  (Buffer.ofCapacity? capacity).map fun buffer => { buffer }

/-- The writer's turn with `left` of `data` still to write. -/
def writeTurn (pair : Pair) (data left : List UInt8) : Pair × List Event :=
  match pair.buffer.offer left with
  | (buffer, .accepted) => ({ pair with buffer, writing := .idle }, [.wrote data [] (.ok ())])
  | (buffer, .refused error left) =>
    ({ pair with buffer, writing := .idle }, [.wrote data left (.error error)])
  | (buffer, .waiting left) => ({ pair with buffer, writing := .waiting data left }, [])

/-- The reader's turn with room for `n` bytes. -/
def readTurn (pair : Pair) (n : Nat) : Pair × List Event :=
  match pair.buffer.take n with
  | (buffer, .bytes bytes) => ({ pair with buffer, reading := .idle }, [.read n (some bytes)])
  | (buffer, .ended) => ({ pair with buffer, reading := .idle }, [.read n none])
  | (buffer, .waiting) => ({ pair with buffer, reading := .waiting n }, [])

/-- The turn that an action is, if its party can take it now. -/
def step (pair : Pair) : Action → Option (Pair × List Event)
  | .write data =>
    match pair.writing with
    | .idle => some (pair.writeTurn data data)
    | _ => none
  | .resumeWrite =>
    match pair.writing with
    | .waiting data left => some (pair.writeTurn data left)
    | _ => none
  | .close =>
    match pair.writing with
    | .idle => some ({ pair with buffer := pair.buffer.close }, [])
    | _ => none
  | .dropWriter =>
    match pair.writing with
    | .idle => some ({ pair with buffer := pair.buffer.close, writing := .gone }, [])
    | _ => none
  | .read n =>
    match pair.reading with
    | .idle => some (pair.readTurn n)
    | _ => none
  | .resumeRead =>
    match pair.reading with
    | .waiting n => some (pair.readTurn n)
    | _ => none
  | .dropReader =>
    match pair.reading with
    | .idle => some ({ pair with buffer := pair.buffer.dropReader, reading := .gone }, [])
    | _ => none

/-- A run of actions, each of which its party can take, with the events in order. -/
def run (pair : Pair) : List Action → Option (Pair × List Event)
  | [] => some (pair, [])
  | action :: rest => do
    let (pair, events) ← pair.step action
    let (pair, more) ← pair.run rest
    return (pair, events ++ more)

/-- The next turn of a party that was notified. -/
def notified? (pair : Pair) : Option Action :=
  if pair.buffer.reader = .notified then some .resumeRead
  else if pair.buffer.writer = .notified then some .resumeWrite
  else none

/-- Resumes a party that was notified, if there is one. -/
def resumeNotified (pair : Pair) : Pair × List Event :=
  match pair.notified? with
  | some action => (pair.step action).getD (pair, [])
  | none => (pair, [])

/-- Resumes whoever was notified. A read that is resumed completes, and only then the writer
may have to be told of room; so after two turns nobody is left to resume. -/
def settle (pair : Pair) : Pair × List Event :=
  let (pair, first) := pair.resumeNotified
  let (pair, second) := pair.resumeNotified
  (pair, first ++ second)

/-- An action and all that follows from it without another one. -/
def act (pair : Pair) (action : Action) : Option (Pair × List Event) := do
  let (pair, events) ← pair.step action
  let (pair, more) := pair.settle
  return (pair, events ++ more)

end Pair

end Parley.Buffer
