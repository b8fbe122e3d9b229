/-!
# Rings of bytes

A ring holds up to `capacity` bytes in a fixed array. Its contents start at `head` and run on
from the end of the array to its beginning, so both a push and a pop copy at most two
stretches: one up to the end of the array, and one from its beginning.

**The view** (`contents`). The bytes held, oldest first. A push appends as many bytes as
there is room for and a pop removes bytes from the front.
-/

namespace Parley

/-- Writes bytes over the cells from `start` on. -/
def overwrite (cells : Array UInt8) (start : Nat) : List UInt8 → Array UInt8
  | [] => cells
  | byte :: rest => overwrite (cells.setIfInBounds start byte) (start + 1) rest

@[simp] theorem size_overwrite (cells : Array UInt8) (start : Nat) (bytes : List UInt8) :
    (overwrite cells start bytes).size = cells.size := by
  induction bytes generalizing cells start with
  | nil => rfl
  | cons byte rest ih => simp [overwrite, ih]

/-- A fixed array of cells and the stretch of it that is in use. -/
structure Ring where
  cells : Array UInt8
  /-- Where the oldest byte is. -/
  head : Nat
  /-- How many bytes are held. -/
  size : Nat
  head_lt : head < cells.size
  size_le : size ≤ cells.size

namespace Ring

/-- A ring of so many cells that holds nothing. -/
def empty (capacity : Nat) (h : 0 < capacity) : Ring where
  cells := .replicate capacity 0
  head := 0
  size := 0
  head_lt := by simpa using h
  size_le := Nat.zero_le _

/-- How many bytes the ring can hold. -/
def capacity (ring : Ring) : Nat := ring.cells.size

theorem capacity_pos (ring : Ring) : 0 < ring.capacity :=
  Nat.lt_of_le_of_lt (Nat.zero_le _) ring.head_lt

/-- How many more bytes the ring can take. -/
def room (ring : Ring) : Nat := ring.capacity - ring.size

/-- The bytes held, oldest first. -/
def contents (ring : Ring) : List UInt8 :=
  (List.range ring.size).map fun i => ring.cells.getD ((ring.head + i) % ring.capacity) 0

@[simp] theorem length_contents (ring : Ring) : ring.contents.length = ring.size := by
  simp [contents]

/-- Takes as many of the bytes as there is room for, and says how many. -/
def push (ring : Ring) (bytes : List UInt8) : Ring × Nat :=
  let taken := bytes.take ring.room
  let n := taken.length
  let tail := (ring.head + ring.size) % ring.capacity
  let first := min n (ring.capacity - tail)
  let ring' : Ring := {
    cells := overwrite (overwrite ring.cells tail (taken.take first)) 0 (taken.drop first)
    head := ring.head
    size := ring.size + n
    head_lt := by simpa using ring.head_lt
    size_le := by
      have := ring.size_le
      simp only [size_overwrite]
      simp only [n, taken, List.length_take, room, capacity]
      omega }
  (ring', n)

/-- Removes up to `n` bytes from the front. -/
def pop (ring : Ring) (n : Nat) : Ring × List UInt8 :=
  let n := min n ring.size
  let first := min n (ring.capacity - ring.head)
  let bytes := (ring.cells.extract ring.head (ring.head + first)).toList
    ++ (ring.cells.extract 0 (n - first)).toList
  let ring' : Ring := {
    cells := ring.cells
    head := (ring.head + n) % ring.capacity
    size := ring.size - n
    head_lt := Nat.mod_lt _ ring.capacity_pos
    size_le := Nat.le_trans (Nat.sub_le _ _) ring.size_le }
  (ring', bytes)

end Ring

end Parley
