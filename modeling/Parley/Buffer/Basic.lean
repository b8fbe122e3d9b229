import Parley.Buffer.Ring
import Parley.Failure

/-!
# Bounded buffers

A bounded buffer carries bytes from one writer to one reader through a ring. The two take
turns under a lock; what happens in one turn, from taking the lock to releasing it, is one
function here.

**Waiting.** A party that can go no further waits: the writer for room, the reader for bytes.
Each has a condition of its own. It stays in the condition (`Stance.waiting`) until the other
party notifies it (`Stance.notified`), or until it wakes up without cause, and then takes
another turn, which checks everything again.

**Ends.** A closed buffer takes no more bytes; its reader gets what is left and then the end.
A buffer whose reader is gone takes none either. Neither is ever undone.
-/

namespace Parley

/-- Why a buffer takes no bytes. -/
inductive BufferError
  | closed
  | readerGone
  deriving DecidableEq, Repr

namespace BufferError

def message : BufferError → String
  | closed => "buffer is closed for writing"
  | readerGone => "buffer reader has been dropped"

/-- The error as a failure of a byte stream. -/
def failure (error : BufferError) : Failure := ⟨.brokenPipe, .custom error.message⟩

end BufferError

/-- How a party stands to the condition that it waits in. -/
inductive Stance
  /-- It is in no condition. -/
  | running
  /-- It waits and has not been notified. -/
  | waiting
  /-- It has been notified and will take its next turn. -/
  | notified
  deriving DecidableEq, Repr

/-- A notification reaches a party that waits and no other. -/
def Stance.notify : Stance → Stance
  | waiting => notified
  | stance => stance

/-- What the two parties share. -/
structure Buffer where
  ring : Ring
  /-- The writer will write no more. -/
  closed : Bool := false
  readerGone : Bool := false
  /-- How the writer stands: it waits for room. -/
  writer : Stance := .running
  /-- How the reader stands: it waits for bytes. -/
  reader : Stance := .running

/-- Where a turn leaves a write. -/
inductive Offered
  /-- All bytes have been taken. -/
  | accepted
  /-- The bytes left will not be taken. -/
  | refused (error : BufferError) (left : List UInt8)
  /-- The bytes left have to wait for room. -/
  | waiting (left : List UInt8)
  deriving DecidableEq, Repr

/-- Where a turn leaves a read. -/
inductive Taken
  | bytes (bytes : List UInt8)
  /-- The buffer is closed and drained. -/
  | ended
  | waiting
  deriving DecidableEq, Repr

namespace Buffer

/-- An open, empty buffer; there is none without capacity. -/
def ofCapacity? (capacity : Nat) : Option Buffer :=
  if h : 0 < capacity then some { ring := .empty capacity h } else none

/-- What it says of a capacity that it has to refuse. -/
def capacityMessage : String := "buffer capacity must be non-zero"

def capacity (buffer : Buffer) : Nat := buffer.ring.capacity

/-- How many bytes are held. -/
def size (buffer : Buffer) : Nat := buffer.ring.size

/-- The bytes held, oldest first. -/
def contents (buffer : Buffer) : List UInt8 := buffer.ring.contents

/-- A turn of the writer with bytes to write. It takes what there is room for and tells the
reader; if bytes are left then, the ring is full and it waits. -/
def offer (buffer : Buffer) (bytes : List UInt8) : Buffer × Offered :=
  let buffer := { buffer with writer := .running }
  if bytes.isEmpty then (buffer, .accepted)
  else if buffer.closed then (buffer, .refused .closed bytes)
  else if buffer.readerGone then (buffer, .refused .readerGone bytes)
  else if buffer.ring.room = 0 then ({ buffer with writer := .waiting }, .waiting bytes)
  else
    let (ring, n) := buffer.ring.push bytes
    let buffer := { buffer with ring, reader := buffer.reader.notify }
    let left := bytes.drop n
    if left.isEmpty then (buffer, .accepted)
    else ({ buffer with writer := .waiting }, .waiting left)

/-- A turn of the reader with room for `n` bytes. It tells the writer when it has made room. -/
def take (buffer : Buffer) (n : Nat) : Buffer × Taken :=
  let buffer := { buffer with reader := .running }
  if n = 0 then (buffer, .bytes [])
  else if buffer.ring.size = 0 then
    if buffer.closed then (buffer, .ended)
    else ({ buffer with reader := .waiting }, .waiting)
  else
    let (ring, bytes) := buffer.ring.pop n
    ({ buffer with ring, writer := buffer.writer.notify }, .bytes bytes)

/-- The writer writes no more. -/
def close (buffer : Buffer) : Buffer :=
  if buffer.closed then buffer
  else { buffer with closed := true, reader := buffer.reader.notify }

/-- The reader reads no more. -/
def dropReader (buffer : Buffer) : Buffer :=
  { buffer with readerGone := true, writer := buffer.writer.notify }

end Buffer

end Parley
