import Parley.Buffer.Pair

/-!
# Both handles in one hand

One thread holds the writer and the reader of a buffer. It uses them in turn, and it may lend
either to a background job that carries out one operation and keeps the handle until it is
joined.

**No way to block.** Nobody else could bring an operation of this thread to its end once it
waits and the jobs can go no further. Such an operation is not carried out at all: it gives
no result and leaves everything as it was.
-/

namespace Parley.Buffer

/-- A handle's operation in the background. -/
inductive Job (α : Type)
  | running
  | finished (result : α)

/-- The two handles of a buffer, with the job that each is lent to. -/
structure Handles where
  pair : Pair
  writeJob : Option (Job (Except BufferError Unit)) := none
  readJob : Option (Job (Option (List UInt8))) := none

namespace Handles

/-- The two handles of a new buffer. -/
def ofCapacity? (capacity : Nat) : Option Handles :=
  (Pair.ofCapacity? capacity).map fun pair => { pair }

/-- Hands the event to the job it ends, if its handle is lent. -/
def deliver (handles : Handles) : Event → Handles
  | .wrote _ _ result =>
    { handles with writeJob := handles.writeJob.map fun _ => .finished result }
  | .read _ result =>
    { handles with readJob := handles.readJob.map fun _ => .finished result }

/-- An action of either party and what follows from it. -/
def act (handles : Handles) (action : Action) : Handles × List Event :=
  match handles.pair.act action with
  | some (pair, events) => (events.foldl deliver { handles with pair }, events)
  | none => (handles, [])

/-- The writer is in hand. -/
def holdsWriter (handles : Handles) : Bool :=
  handles.writeJob.isNone && handles.pair.writing != .gone

/-- The reader is in hand. -/
def holdsReader (handles : Handles) : Bool :=
  handles.readJob.isNone && handles.pair.reading != .gone

/-- Writes the data. -/
def write (handles : Handles) (data : List UInt8) :
    Option (Except BufferError Unit) × Handles :=
  let (after, events) := handles.act (.write data)
  let result := events.findSome? fun
    | .wrote _ _ result => some result
    | _ => none
  match result with
  | some result => (some result, after)
  | none => (none, handles)

/-- Reads up to `n` bytes; a result without bytes is the end of the stream. -/
def read (handles : Handles) (n : Nat) : Option (Option (List UInt8)) × Handles :=
  let (after, events) := handles.act (.read n)
  let result := events.findSome? fun
    | .read _ result => some result
    | _ => none
  match result with
  | some result => (some result, after)
  | none => (none, handles)

/-- Reads all there is up to the end of the stream, which only a closed buffer has. -/
def readToEnd (handles : Handles) : Option (List UInt8) × Handles :=
  if handles.pair.buffer.closed then
    let (result, after) := handles.read (handles.pair.buffer.size + 1)
    (result.map fun bytes => bytes.getD [], after)
  else (none, handles)

def close (handles : Handles) : Handles := (handles.act .close).1

def dropWriter (handles : Handles) : Handles := (handles.act .dropWriter).1

def dropReader (handles : Handles) : Handles := (handles.act .dropReader).1

/-- Starts a write in the background. -/
def writeInBackground (handles : Handles) (data : List UInt8) : Handles :=
  ({ handles with writeJob := some .running }.act (.write data)).1

/-- Starts a read in the background. -/
def readInBackground (handles : Handles) (n : Nat) : Handles :=
  ({ handles with readJob := some .running }.act (.read n)).1

/-- Takes the writer back with the result of its job, if that has ended. -/
def joinWrite (handles : Handles) : Option (Except BufferError Unit) × Handles :=
  match handles.writeJob with
  | some (.finished result) => (some result, { handles with writeJob := none })
  | _ => (none, handles)

/-- Takes the reader back with the result of its job, if that has ended. -/
def joinRead (handles : Handles) : Option (Option (List UInt8)) × Handles :=
  match handles.readJob with
  | some (.finished result) => (some result, { handles with readJob := none })
  | _ => (none, handles)

end Handles

end Parley.Buffer
