import Parley.Buffer.Memory
import Parley.Proofs.Buffer.Ring

/-!
# Rings in memory are queues of bytes

No step of a push or of a pop fails in memory, as long as the head lies in the array and the ring
holds no more than this has cells: what they do then is what a ring does.

**Why no sum is too large.** All sums are of at most two times the capacity. An array has at most
half as many cells as a word can count, so a word holds them.

**Theorem (`Ring.Memory.queue`).** A push and a pop keep the two words valid. Seen as a queue of
bytes, a push puts at the end what there is room for, and a pop takes off the front what there is
and copies it over the first bytes of its target alone.
-/

namespace Parley

/-! ## Steps that do not fail -/

namespace Word

theorem add?_of_le {max x y : Nat} (h : x + y ≤ max) : add? max x y = some (x + y) := if_pos h

theorem sub?_of_le {x y : Nat} (h : y ≤ x) : sub? x y = some (x - y) := if_pos h

theorem mod?_of_pos {x y : Nat} (h : 0 < y) : mod? x y = some (x % y) :=
  if_neg (Nat.pos_iff_ne_zero.mp h)

end Word

theorem slice?_of_le {bytes : Array UInt8} {start stop : Nat} (h : start ≤ stop)
    (hstop : stop ≤ bytes.size) :
    slice? bytes start stop = some ((bytes.toList.take stop).drop start) :=
  if_pos ⟨h, hstop⟩

theorem copy?_of_length {bytes : Array UInt8} {start stop : Nat} {source : List UInt8}
    (h : start ≤ stop) (hstop : stop ≤ bytes.size) (hlength : source.length = stop - start) :
    copy? bytes start stop source = some (overwrite bytes start source) :=
  if_pos ⟨h, hstop, hlength⟩

theorem toList_overwrite (bytes : Array UInt8) (start : Nat) (source : List UInt8)
    (h : start + source.length ≤ bytes.size) :
    (overwrite bytes start source).toList =
      bytes.toList.take start ++ source ++ bytes.toList.drop (start + source.length) := by
  induction source generalizing bytes start with
  | nil => simp [overwrite]
  | cons byte rest ih =>
    simp only [List.length_cons] at h
    have hlt : start < bytes.toList.length := by simpa using by omega
    have hstart : (bytes.toList.take start).length = start := by simpa using by omega
    have hset : (bytes.toList.set start byte) =
        (bytes.toList.take start ++ [byte]) ++ bytes.toList.drop (start + 1) := by
      rw [List.set_eq_take_append_cons_drop, if_pos hlt, List.append_assoc]
      rfl
    have hlength : (bytes.toList.take start ++ [byte]).length = start + 1 := by
      rw [List.length_append, hstart]
      rfl
    rw [overwrite, ih _ _ (by simpa using by omega), Array.toList_setIfInBounds, hset,
      List.take_left' hlength, ← List.drop_drop, List.drop_left' hlength, List.drop_drop,
      List.length_cons, Nat.add_assoc start 1, Nat.add_comm 1]
    simp only [List.append_assoc, List.cons_append, List.nil_append]

namespace Ring

variable {max : Nat}

@[simp] theorem capacity_memory (ring : Ring) : ring.memory.capacity = ring.capacity := rfl

@[simp] theorem cells_memory (ring : Ring) : ring.memory.cells = ring.cells := rfl

@[simp] theorem head_memory (ring : Ring) : ring.memory.head = ring.head := rfl

@[simp] theorem size_memory (ring : Ring) : ring.memory.size = ring.size := rfl

@[simp] theorem contents_memory (ring : Ring) : ring.memory.contents = ring.contents := rfl

/-- **A push in memory.** No step of it fails, and it is a push of the ring. -/
theorem push?_memory (ring : Ring) (hmax : ring.capacity ≤ max / 2) (source : Array UInt8) :
    ring.memory.push? max source =
      some ((ring.push source.toList).1.memory, min source.size ring.room) := by
  have hhead : ring.head < ring.cells.size := ring.head_lt
  have hsize : ring.size ≤ ring.cells.size := ring.size_le
  have hpos : 0 < ring.cells.size := ring.capacity_pos
  have htail : (ring.head + ring.size) % ring.cells.size < ring.cells.size := Nat.mod_lt _ hpos
  have htaken : source.toList.take (ring.cells.size - ring.size) =
      source.toList.take (min source.size (ring.cells.size - ring.size)) := by
    rw [List.take_eq_take_iff, Array.length_toList]
    omega
  have hlength : (source.toList.take (min source.size (ring.cells.size - ring.size))).length =
      min source.size (ring.cells.size - ring.size) := by
    rw [List.length_take, Array.length_toList]
    omega
  simp only [capacity] at hmax
  simp only [push, Memory.push?, Memory.capacity, memory, capacity, room, htaken, hlength,
    Option.bind_eq_bind]
  rw [Word.sub?_of_le hsize, Option.bind_some, Word.add?_of_le (by omega), Option.bind_some,
    Word.mod?_of_pos hpos, Option.bind_some]
  generalize (ring.head + ring.size) % ring.cells.size = tail at htail ⊢
  generalize hn : min source.size (ring.cells.size - ring.size) = n at hlength ⊢
  generalize hf : min n (ring.cells.size - tail) = first
  rw [Word.sub?_of_le (Nat.le_of_lt htail), Option.bind_some, hf, Word.add?_of_le (by omega),
    Option.bind_some, slice?_of_le (Nat.zero_le _) (by omega), Option.bind_some]
  rw [copy?_of_length (by omega) (by omega) (by simp; omega),
    Option.bind_some, Word.sub?_of_le (by omega), Option.bind_some]
  rw [slice?_of_le (by omega) (by omega), Option.bind_some]
  rw [copy?_of_length (Nat.zero_le _) (by rw [size_overwrite]; omega) (by simp; omega),
    Option.bind_some, Word.add?_of_le (by omega), Option.bind_some]
  rw [List.drop_zero, List.take_take, Nat.min_eq_left (by omega)]
  rfl

/-- **A pop in memory.** No step of it fails, and it is a pop of the ring whose bytes are put over
the first ones of the target. -/
theorem pop?_memory (ring : Ring) (hmax : ring.capacity ≤ max / 2) (target : Array UInt8) :
    ∃ given, ring.memory.pop? max target =
        some ((ring.pop target.size).1.memory, given, min target.size ring.size) ∧
      given.toList = (ring.pop target.size).2 ++
        target.toList.drop (min target.size ring.size) := by
  have hhead : ring.head < ring.cells.size := ring.head_lt
  have hsize : ring.size ≤ ring.cells.size := ring.size_le
  have hpos : 0 < ring.cells.size := ring.capacity_pos
  simp only [capacity] at hmax
  simp only [pop, Memory.pop?, Memory.capacity, memory, capacity, Option.bind_eq_bind]
  generalize hn : min target.size ring.size = n
  generalize hf : min n (ring.cells.size - ring.head) = first
  rw [Word.sub?_of_le (Nat.le_of_lt hhead), Option.bind_some, hf, Word.add?_of_le (by omega),
    Option.bind_some, slice?_of_le (by omega) (by omega), Option.bind_some]
  rw [copy?_of_length (Nat.zero_le _) (by omega) (by simp; omega), Option.bind_some,
    Word.sub?_of_le (by omega), Option.bind_some, slice?_of_le (by omega) (by omega),
    Option.bind_some]
  rw [copy?_of_length (by omega) (by rw [size_overwrite]; omega) (by simp; omega),
    Option.bind_some, Word.add?_of_le (by omega), Option.bind_some, Word.mod?_of_pos hpos,
    Option.bind_some, Word.sub?_of_le (by omega), Option.bind_some]
  refine ⟨_, rfl, ?_⟩
  have hfront : (List.drop ring.head (List.take (ring.head + first) ring.cells.toList)).length =
      first := by simp; omega
  have hback : (List.drop 0 (List.take (n - first) ring.cells.toList)).length = n - first := by
    simp; omega
  rw [toList_overwrite _ _ _ (by rw [size_overwrite, hback]; omega),
    toList_overwrite _ _ _ (by rw [hfront]; omega), hfront, hback, List.take_zero,
    List.nil_append, List.take_left' hfront, ← List.drop_drop, List.drop_left' hfront,
    List.drop_drop, Nat.zero_add, Nat.add_sub_cancel' (by omega)]
  simp only [Array.toList_extract, List.extract_eq_take_drop, List.drop_zero, Nat.sub_zero,
    List.drop_take]

theorem valid_memory (ring : Ring) : ring.memory.Valid := ⟨ring.head_lt, ring.size_le⟩

namespace Memory

@[simp] theorem memory_ring (memory : Memory) (h : memory.Valid) :
    (memory.ring h).memory = memory := rfl

/-- **Rings in memory are queues of bytes.** No step of a push or of a pop fails when the head lies
in the array and no more bytes are held than there are cells, and these stay so. A push takes as
many bytes as there is room for and puts them behind the contents. A pop takes as many as there are
and as are asked for off the front, and copies them over the first bytes of its target, which keeps
the others. -/
theorem queue (max : Nat) (memory : Memory) (h : memory.Valid)
    (hmax : memory.capacity ≤ max / 2) :
    memory.head + memory.size ≤ max ∧
      (∀ source n, min source.size (memory.capacity - memory.size) = n →
        ∃ next, memory.push? max source = some (next, n) ∧
          next = ((memory.ring h).push source.toList).1.memory ∧
          next.capacity = memory.capacity ∧ next.Valid ∧
          next.contents = memory.contents ++ source.toList.take n) ∧
      ∀ target n, min target.size memory.size = n →
        ∃ next given, memory.pop? max target = some (next, given, n) ∧
          next = ((memory.ring h).pop target.size).1.memory ∧
          next.capacity = memory.capacity ∧ next.Valid ∧
          given.toList = memory.contents.take n ++ target.toList.drop n ∧
          next.contents = memory.contents.drop n := by
  have hhead := h.head_lt
  have hsize := h.size_le
  have hlength : (memory.ring h).contents.length = memory.size := length_contents _
  refine ⟨by omega, ?_, ?_⟩
  · rintro source _ rfl
    refine ⟨_, push?_memory (memory.ring h) hmax source, rfl, capacity_push _ _,
      valid_memory _, ?_⟩
    have htaken : source.toList.take (memory.ring h).room =
        source.toList.take (min source.size (memory.capacity - memory.size)) := by
      rw [List.take_eq_take_iff, Array.length_toList]
      show min (memory.capacity - memory.size) source.size = _
      omega
    rw [contents_memory, contents_push, htaken]
    rfl
  · rintro target _ rfl
    obtain ⟨given, hpop, hgiven⟩ := pop?_memory (memory.ring h) hmax target
    refine ⟨_, given, hpop, rfl, capacity_pop (memory.ring h) target.size, valid_memory _, ?_, ?_⟩
    · have htaken : (memory.ring h).contents.take target.size =
          (memory.ring h).contents.take (min target.size memory.size) := by
        rw [List.take_eq_take_iff, hlength]
        omega
      rw [hgiven, bytes_pop, htaken]
      rfl
    · have hleft : (memory.ring h).contents.drop target.size =
          (memory.ring h).contents.drop (min target.size memory.size) := by
        rw [List.drop_eq_drop_iff, hlength]
        omega
      rw [contents_memory, contents_pop, hleft]
      rfl

/-- Three cells of which two are in use, the last and the first: one of two bytes fits, and it goes
in between. Both bytes come out over the first of three. -/
theorem queue_wrapped :
    let memory : Memory := ⟨#[7, 0, 5], 2, 2⟩
    let max := UInt64.size - 1
    memory.Valid ∧ memory.capacity ≤ max / 2 ∧
      (∃ next, memory.push? max #[8, 9] = some (next, 1) ∧ next.contents = [5, 7, 8]) ∧
      ∃ next given, memory.pop? max #[1, 2, 3] = some (next, given, 2) ∧
        given.toList = [5, 7, 3] ∧ next.contents = [] := by
  intro memory max
  have hvalid : memory.Valid := ⟨by decide, by decide⟩
  have hmax : memory.capacity ≤ max / 2 := by decide
  have hcontents : memory.contents = [5, 7] := by decide
  obtain ⟨-, hpush, hpop⟩ := queue max memory hvalid hmax
  obtain ⟨pushed, hpush, -, -, -, hpushed⟩ := hpush #[8, 9] 1 rfl
  obtain ⟨popped, given, hpop, -, -, -, hgiven, hpopped⟩ := hpop #[1, 2, 3] 2 rfl
  rw [hcontents] at hpushed hgiven hpopped
  exact ⟨hvalid, hmax, ⟨pushed, hpush, hpushed⟩, popped, given, hpop, hgiven, hpopped⟩

end Memory

end Ring

end Parley
