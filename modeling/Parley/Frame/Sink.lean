import Parley.Frame.Basic

/-!
# Frames into a sink

A sink is known by what its writes and flushes will come to: a write takes at most so many
bytes or fails, a flush succeeds or fails. After the last of these events everything is
accepted. A sink keeps the calls that were made of it, with its answers; what it has taken is
what these calls brought.

**Writing a frame** (`Sink.writeFrame`). A body over the limit is refused before the sink is
touched. Otherwise header and body are offered together, and what a write did not take is
offered again. An interrupted write is repeated, a write that takes nothing is a failure of
its own, and any other failure ends the writing. Only when all bytes are taken the sink is
flushed, once.
-/

namespace Parley.Frame

/-- A call of a sink, with its answer. -/
inductive SinkCall
  /-- Some bytes are offered, and so many of them are taken. -/
  | write (offered : List UInt8) (answer : Except Failure Nat)
  | flush (answer : Except Failure Unit)

namespace SinkCall

/-- The bytes that the call brought. -/
def taken : SinkCall → List UInt8
  | write offered (.ok n) => offered.take n
  | write _ (.error _) | flush _ => []

def isFlush : SinkCall → Bool
  | flush _ => true
  | write _ _ => false

end SinkCall

/-- A sink of bytes: the events still to come and what has happened. -/
structure Sink where
  /-- How many bytes at most each coming write takes, or why it fails. -/
  writes : List (Except Failure Nat) := []
  /-- Why each coming flush fails, if it does. -/
  flushes : List (Option Failure) := []
  /-- The calls so far. -/
  calls : Array SinkCall := #[]

namespace Sink

/-- The bytes taken. -/
def taken (sink : Sink) : Array UInt8 := (sink.calls.toList.flatMap SinkCall.taken).toArray

/-- The number of flushes called. -/
def flushed (sink : Sink) : Nat := sink.calls.toList.countP SinkCall.isFlush

/-- Offers the bytes once: how many of them are taken. -/
def write (sink : Sink) (bytes : List UInt8) : Except Failure Nat × Sink :=
  let answer := match sink.writes with
    | [] => .ok bytes.length
    | event :: _ => event.map (min bytes.length)
  (answer, { sink with
    writes := sink.writes.tail
    calls := sink.calls.push (.write bytes answer) })

/-- Flushes once. -/
def flush (sink : Sink) : Except Failure Unit × Sink :=
  let answer := match sink.flushes.head?.join with
    | none => .ok ()
    | some failure => .error failure
  (answer, { sink with
    flushes := sink.flushes.tail
    calls := sink.calls.push (.flush answer) })

theorem length_writes_write (sink : Sink) (bytes : List UInt8) :
    (sink.write bytes).2.writes.length = sink.writes.length - 1 :=
  List.length_tail

theorem writes_ne_nil_of_write {sink : Sink} {bytes : List UInt8} {failure : Failure}
    (h : (sink.write bytes).1 = .error failure) : sink.writes ≠ [] := by
  intro hnil
  simp [write, hnil] at h

/-- Offers the bytes until all are taken or a write fails. -/
def writeAll (sink : Sink) (bytes : List UInt8) : Except Failure Unit × Sink :=
  if _hb : bytes = [] then (.ok (), sink)
  else
    match _ha : (sink.write bytes).1 with
    | .ok n =>
      if _hn : n = 0 then (.error .nothingWritten, (sink.write bytes).2)
      else (sink.write bytes).2.writeAll (bytes.drop n)
    | .error failure =>
      if failure.kind = .interrupted then (sink.write bytes).2.writeAll bytes
      else (.error failure, (sink.write bytes).2)
termination_by sink.writes.length + bytes.length
decreasing_by
  · have hlen := List.length_pos_iff.mpr _hb
    rw [length_writes_write, List.length_drop]
    omega
  · have hlen := List.length_pos_iff.mpr (writes_ne_nil_of_write _ha)
    rw [length_writes_write]
    omega

/-- Writes a body as one frame. -/
def writeFrame (max : UInt32) (body : List UInt8) (sink : Sink) :
    Except FrameError Unit × Sink :=
  match make max body with
  | .error error => (.error error, sink)
  | .ok frame =>
    match sink.writeAll frame with
    | (.error failure, sink) => (.error (.failed failure), sink)
    | (.ok (), sink) =>
      let (result, sink) := sink.flush
      (result.mapError .failed, sink)

end Sink

end Parley.Frame
