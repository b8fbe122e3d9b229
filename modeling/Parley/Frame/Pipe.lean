import Parley.Buffer.Coupling
import Parley.Frame.Assembly

/-!
# Frames through a buffer

One thread writes bodies as frames into a buffer, then some bytes as they are, and gives up
its handle; another reads frames until something else comes, and then all that is left.

A body over the writer's limit is refused and puts nothing into the buffer, so the stream is
the frames of the other bodies followed by the raw bytes.
-/

namespace Parley.Frame.Pipe

open Buffer (Coupling Consumer Pair)

/-- What the reader is at. -/
inductive Phase
  | assembling (assembly : Assembly)
  /-- Something that was no frame has come: the rest is read as bytes. -/
  | draining
  | finished

/-- The reader's program. -/
structure Collector where
  max : UInt32
  phase : Phase := .assembling .start
  /-- What has been read, frames and at last something else. -/
  outcomes : Array Outcome := #[]
  /-- The bytes read after that. -/
  rest : Array UInt8 := #[]

namespace Collector

/-- The size of the reads for bytes. -/
def drainSize : Nat := 8192

def demand (collector : Collector) : Option Nat :=
  match collector.phase with
  | .assembling assembly => some assembly.demand
  | .draining => some drainSize
  | .finished => none

def receive (collector : Collector) (result : Option (List UInt8)) : Collector :=
  match collector.phase with
  | .assembling assembly =>
    match assembly.receive collector.max (.ok (result.getD [])) with
    | .more next => { collector with phase := .assembling next }
    | .done outcome =>
      let phase := match outcome with
        | .body _ => .assembling .start
        | _ => .draining
      { collector with phase, outcomes := collector.outcomes.push outcome }
  | .draining =>
    match result with
    | some bytes => { collector with rest := collector.rest ++ bytes }
    | none => { collector with phase := .finished }
  | .finished => collector

def consumer : Consumer Collector := { demand, receive }

end Collector

/-- How a pipe came out. -/
structure Report where
  writes : List (Except FrameError Unit)
  reads : List Outcome
  /-- The bytes that are part of nothing read. -/
  rest : List UInt8

/-- The answers to writing the bodies, given those to the writes of the ones that fit. -/
def answers (max : UInt32) : List (List UInt8) → List (Except BufferError Unit) →
    List (Except FrameError Unit)
  | [], _ => []
  | body :: bodies, written =>
    match make max body with
    | .error error => .error error :: answers max bodies written
    | .ok _ =>
      ((written.head?.getD (.ok ())).mapError fun error => .failed error.failure)
        :: answers max bodies written.tail

/-- The writer's program. -/
def script (max : UInt32) (bodies : List (List UInt8)) (tail : List UInt8) :
    List Buffer.Action :=
  (bodies.filterMap fun body => (make max body).toOption).map .write ++ [.write tail, .dropWriter]

/-- The buffer with the two programs before their first turns. -/
def start (pair : Pair) (maxWrite maxRead : UInt32) (bodies : List (List UInt8))
    (tail : List UInt8) : Coupling Collector :=
  { pair, script := script maxWrite bodies tail, reader := { max := maxRead } }

/-- What the programs have come to. -/
def report (maxWrite : UInt32) (bodies : List (List UInt8)) (coupling : Coupling Collector) :
    Report :=
  { writes := answers maxWrite bodies coupling.written.toList
    reads := coupling.reader.outcomes.toList
    rest := coupling.reader.rest.toList }

/-- Sends the bodies and the raw bytes through a buffer. -/
def run (pair : Pair) (maxWrite maxRead : UInt32) (bodies : List (List UInt8))
    (tail : List UInt8) : Report :=
  let bytes := (bodies.flatMap encode).length + tail.length
  let turns := Coupling.turnsFor bytes (bodies.length + 3)
  report maxWrite bodies
    ((start pair maxWrite maxRead bodies tail).finish Collector.consumer turns)

end Parley.Frame.Pipe
