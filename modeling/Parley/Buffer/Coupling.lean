import Parley.Buffer.Pair

/-!
# Two programs at one buffer

A writing thread and a reading thread that run programs of their own. The writer's program is
the list of its actions. The reader's program (`Consumer`) asks for bytes, is told what came,
and gives up its handle when it asks for nothing more.

**Schedules.** A `Party` takes its next turn whenever the schedule names it; a schedule is any
list of parties, and a waiting party that is named wakes up without cause. `finish` is the
schedule that names the writer as long as it can go on and the reader otherwise.
-/

namespace Parley.Buffer

/-- A reader's program with states of type `ρ`. -/
structure Consumer (ρ : Type) where
  /-- How many bytes to ask for next; nothing gives up the handle. -/
  demand : ρ → Option Nat
  /-- What a read brought; nothing is the end of the stream. -/
  receive : ρ → Option (List UInt8) → ρ

inductive Party
  | writer
  | reader
  deriving DecidableEq, Repr

/-- A buffer between a writer's program and a reader's. -/
structure Coupling (ρ : Type) where
  pair : Pair
  /-- The actions that the writer has still to start. -/
  script : List Action
  /-- How the writes started so far came out. -/
  written : Array (Except BufferError Unit) := #[]
  reader : ρ

namespace Coupling

variable {ρ : Type}

/-- The action that a party's next turn is, if it has one. -/
def next? (consumer : Consumer ρ) (coupling : Coupling ρ) : Party → Option Action
  | .writer =>
    match coupling.pair.writing with
    | .idle => coupling.script.head?
    | .waiting _ _ => some .resumeWrite
    | .gone => none
  | .reader =>
    match coupling.pair.reading with
    | .idle => some (match consumer.demand coupling.reader with
      | some n => .read n
      | none => .dropReader)
    | .waiting _ => some .resumeRead
    | .gone => none

/-- The writer's program once an action has been taken. -/
def scriptAfter (coupling : Coupling ρ) : Action → List Action
  | .resumeWrite | .read _ | .resumeRead | .dropReader => coupling.script
  | .write _ | .close | .dropWriter => coupling.script.tail

/-- The programs are told of what came to its end. -/
def tell (consumer : Consumer ρ) (coupling : Coupling ρ) : Event → Coupling ρ
  | .wrote _ _ result => { coupling with written := coupling.written.push result }
  | .read _ result => { coupling with reader := consumer.receive coupling.reader result }

/-- One turn of a party, if it has one. -/
def turn (consumer : Consumer ρ) (coupling : Coupling ρ) (party : Party) :
    Option (Coupling ρ) := do
  let action ← coupling.next? consumer party
  let (pair, events) ← coupling.pair.step action
  let coupling := { coupling with pair, script := coupling.scriptAfter action }
  return events.foldl (tell consumer) coupling

/-- The turns of a schedule; a party without a turn is passed over. -/
def run (consumer : Consumer ρ) (coupling : Coupling ρ) (schedule : List Party) :
    Coupling ρ :=
  schedule.foldl (fun coupling party => (coupling.turn consumer party).getD coupling) coupling

/-- A party does not wait, or no longer. -/
def awake (coupling : Coupling ρ) : Party → Bool
  | .writer => coupling.pair.buffer.writer != .waiting
  | .reader => coupling.pair.buffer.reader != .waiting

/-- A turn of the writer if it is awake and has one, else of the reader. -/
def advance (consumer : Consumer ρ) (coupling : Coupling ρ) : Option (Coupling ρ) :=
  let turn (party : Party) :=
    if coupling.awake party then coupling.turn consumer party else none
  turn .writer <|> turn .reader

/-- Up to `turns` turns, until nobody can go on. -/
def finish (consumer : Consumer ρ) (coupling : Coupling ρ) : (turns : Nat) → Coupling ρ
  | 0 => coupling
  | turns + 1 =>
    match coupling.advance consumer with
    | some next => next.finish consumer turns
    | none => coupling

/-- Turns enough for programs that handle so many bytes in so many operations: each turn
takes up or hands over a byte, starts or ends an operation, or begins a wait that one of
these ends. -/
def turnsFor (bytes operations : Nat) : Nat := 4 * (bytes + operations) + 8

end Coupling

end Parley.Buffer
