import Parley.Buffer.Ring

/-!
# Rings in memory

In memory a ring is an array of bytes with two machine words, its head and its size. A push and a
pop compute with these words and copy slices of arrays, and every step of this may fail: a sum that
does not fit into a word, a difference below zero, a remainder by zero, a slice that is out of the
bounds of its array, a copy between slices that are not of one length. Here every step is checked,
and nothing comes of a push or a pop with a step that fails.
-/

namespace Parley

namespace Word

/-- A sum of words up to `max`. -/
def add? (max x y : Nat) : Option Nat := if x + y ≤ max then some (x + y) else none

def sub? (x y : Nat) : Option Nat := if y ≤ x then some (x - y) else none

def mod? (x y : Nat) : Option Nat := if y = 0 then none else some (x % y)

end Word

/-- The bytes of an array from `start` up to `stop`. -/
def slice? (bytes : Array UInt8) (start stop : Nat) : Option (List UInt8) :=
  if start ≤ stop ∧ stop ≤ bytes.size then some ((bytes.toList.take stop).drop start) else none

/-- Copies bytes over those of an array from `start` up to `stop`, which must be as many. -/
def copy? (bytes : Array UInt8) (start stop : Nat) (source : List UInt8) : Option (Array UInt8) :=
  if start ≤ stop ∧ stop ≤ bytes.size ∧ source.length = stop - start then
    some (overwrite bytes start source)
  else none

/-- A ring as it is in memory: nothing is known of its two words. -/
structure Ring.Memory where
  cells : Array UInt8
  head : Nat
  size : Nat

namespace Ring.Memory

open Word

/-- How many bytes there is memory for. -/
def capacity (memory : Memory) : Nat := memory.cells.size

/-- The bytes held, oldest first. -/
def contents (memory : Memory) : List UInt8 :=
  (List.range memory.size).map fun i =>
    memory.cells.getD ((memory.head + i) % memory.capacity) 0

/-- Copies as many of the bytes as fit into the cells, and says how many. -/
def push? (max : Nat) (memory : Memory) (source : Array UInt8) : Option (Memory × Nat) := do
  let n := min source.size (← sub? memory.capacity memory.size)
  let tail ← mod? (← add? max memory.head memory.size) memory.capacity
  let first := min n (← sub? memory.capacity tail)
  let cells ← copy? memory.cells tail (← add? max tail first) (← slice? source 0 first)
  let cells ← copy? cells 0 (← sub? n first) (← slice? source first n)
  let size ← add? max memory.size n
  return ({ memory with cells, size }, n)

/-- Copies as many bytes as there are and as have room over the first ones of `target`, and says
how many. -/
def pop? (max : Nat) (memory : Memory) (target : Array UInt8) :
    Option (Memory × Array UInt8 × Nat) := do
  let n := min target.size memory.size
  let first := min n (← sub? memory.capacity memory.head)
  let front ← slice? memory.cells memory.head (← add? max memory.head first)
  let target ← copy? target 0 first front
  let target ← copy? target first n (← slice? memory.cells 0 (← sub? n first))
  let head ← mod? (← add? max memory.head n) memory.capacity
  let size ← sub? memory.size n
  return ({ memory with head, size }, target, n)

/-- What a push and a pop rely on. -/
structure Valid (memory : Memory) : Prop where
  head_lt : memory.head < memory.capacity
  size_le : memory.size ≤ memory.capacity

/-- The ring that is in memory. -/
def ring (memory : Memory) (h : memory.Valid) : Ring :=
  ⟨memory.cells, memory.head, memory.size, h.head_lt, h.size_le⟩

end Ring.Memory

/-- A ring as it is in memory. -/
def Ring.memory (ring : Ring) : Ring.Memory := ⟨ring.cells, ring.head, ring.size⟩

end Parley
