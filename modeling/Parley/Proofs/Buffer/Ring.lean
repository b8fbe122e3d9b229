import Parley.Buffer.Ring

/-!
# Rings are queues of bytes

Seen through `contents`, a push appends what there is room for and a pop takes bytes off the
front. Where the stretch in use wraps around the end of the array makes no difference.

The proofs compare byte for byte. An index into the contents is an offset from the head that
passes the end of the array at most once (`mod_cases`), so each comparison is a matter of
which of the two copied stretches the cell lies in.
-/

namespace Parley

theorem getD_overwrite (cells : Array UInt8) (start : Nat) (bytes : List UInt8) {j : Nat}
    (hj : j < cells.size) :
    (overwrite cells start bytes).getD j 0 =
      if start ≤ j ∧ j < start + bytes.length then bytes.getD (j - start) 0
      else cells.getD j 0 := by
  induction bytes generalizing cells start with
  | nil =>
    rw [if_neg (by simp only [List.length_nil]; omega)]
    rfl
  | cons byte rest ih =>
    rw [overwrite, ih _ _ (by simpa using hj)]
    by_cases hs : j = start
    · subst hs
      rw [if_neg (by omega), if_pos (by simp)]
      simp [Array.getD, hj]
    · have hcell : (cells.setIfInBounds start byte).getD j 0 = cells.getD j 0 := by
        simp [Array.getD, hj, Ne.symm hs]
      rw [hcell]
      by_cases hin : start + 1 ≤ j ∧ j < start + 1 + rest.length
      · have hsub : j - start = j - (start + 1) + 1 := by omega
        rw [if_pos hin, if_pos (by simp only [List.length_cons]; omega), hsub,
          List.getD_cons_succ]
      · rw [if_neg hin, if_neg (by simp only [List.length_cons]; omega)]

namespace Ring

theorem mod_cases {a c : Nat} (h : a < 2 * c) :
    a < c ∧ a % c = a ∨ c ≤ a ∧ a % c = a - c := by
  by_cases ha : a < c
  · exact Or.inl ⟨ha, Nat.mod_eq_of_lt ha⟩
  · have hle : c ≤ a := Nat.le_of_not_lt ha
    have hlt : a - c < c := by omega
    refine Or.inr ⟨hle, ?_⟩
    rw [Nat.mod_eq_sub_mod hle, Nat.mod_eq_of_lt hlt]

theorem getElem_contents {ring : Ring} {i : Nat} (h : i < ring.contents.length) :
    ring.contents[i] = ring.cells.getD ((ring.head + i) % ring.capacity) 0 := by
  simp [contents]

@[simp] theorem capacity_empty (capacity : Nat) (h : 0 < capacity) :
    (empty capacity h).capacity = capacity := by
  simp [empty, Ring.capacity]

theorem size_le_capacity (ring : Ring) : ring.size ≤ ring.capacity := ring.size_le

/-! ## Pushing -/

@[simp] theorem capacity_push (ring : Ring) (bytes : List UInt8) :
    (ring.push bytes).1.capacity = ring.capacity := by
  simp [push, Ring.capacity]

theorem size_push (ring : Ring) (bytes : List UInt8) :
    (ring.push bytes).1.size = ring.size + min ring.room bytes.length := by
  simp [push]

theorem taken_push (ring : Ring) (bytes : List UInt8) :
    (ring.push bytes).2 = min ring.room bytes.length := by
  simp [push]

/-- The cell at an offset from the head after a push. An old cell lies in neither of the two
stretches that are written; a new one lies in the first, up to the end of the array, or in
the second, from its beginning. -/
theorem getD_push (ring : Ring) (bytes : List UInt8) {i : Nat}
    (hi : i < ring.size + (bytes.take ring.room).length) :
    (ring.push bytes).1.cells.getD ((ring.head + i) % ring.capacity) 0 =
      if i < ring.size then ring.cells.getD ((ring.head + i) % ring.capacity) 0
      else (bytes.take ring.room).getD (i - ring.size) 0 := by
  have hhead : ring.head < ring.capacity := ring.head_lt
  have hsize : ring.size ≤ ring.capacity := ring.size_le
  have hn : (bytes.take ring.room).length ≤ ring.capacity - ring.size := by
    rw [List.length_take]
    exact Nat.min_le_left _ _
  have hcell : (ring.head + i) % ring.capacity < ring.cells.size :=
    Nat.mod_lt _ ring.capacity_pos
  have htail := mod_cases (a := ring.head + ring.size) (c := ring.capacity) (by omega)
  have hplace := mod_cases (a := ring.head + i) (c := ring.capacity) (by omega)
  simp only [push]
  rw [getD_overwrite _ _ _ (by simpa using hcell), getD_overwrite _ _ _ hcell]
  generalize bytes.take ring.room = taken at hi hn ⊢
  generalize (ring.head + ring.size) % ring.capacity = tail at htail ⊢
  generalize (ring.head + i) % ring.capacity = j at hcell hplace ⊢
  simp only [List.length_take, List.length_drop, Nat.zero_le, Nat.zero_add, true_and,
    Nat.sub_zero]
  by_cases hold : i < ring.size
  · rw [if_neg (by omega), if_neg (by omega), if_pos hold]
  · rw [if_neg hold]
    by_cases hfirst : i - ring.size < ring.capacity - tail
    · have hoff : j - tail = i - ring.size := by omega
      rw [if_neg (by omega), if_pos (by omega), hoff, List.getD_eq_getElem?_getD,
        List.getElem?_take_of_lt (by omega), List.getD_eq_getElem?_getD]
    · have hoff : i - ring.size = min taken.length (ring.capacity - tail) + j := by omega
      rw [if_pos (by omega), hoff, List.getD_eq_getElem?_getD, List.getElem?_drop,
        List.getD_eq_getElem?_getD]

/-- **Pushing appends.** The ring takes the bytes that there is room for, in order, behind
those it holds. -/
theorem contents_push (ring : Ring) (bytes : List UInt8) :
    (ring.push bytes).1.contents = ring.contents ++ bytes.take ring.room := by
  apply List.ext_getElem
  · rw [length_contents, size_push, List.length_append, length_contents, List.length_take]
  · intro i hi hi'
    rw [length_contents, size_push, ← List.length_take] at hi
    rw [getElem_contents, capacity_push]
    show (ring.push bytes).1.cells.getD ((ring.head + i) % ring.capacity) 0 = _
    rw [getD_push ring bytes hi]
    by_cases hold : i < ring.size
    · rw [if_pos hold, List.getElem_append_left (by simpa using hold), getElem_contents]
    · rw [if_neg hold, List.getElem_append_right (by simpa using hold),
        List.getD_eq_getElem?_getD, List.getElem?_eq_getElem (by omega), Option.getD_some]
      simp

/-! ## Popping -/

@[simp] theorem capacity_pop (ring : Ring) (n : Nat) :
    (ring.pop n).1.capacity = ring.capacity := rfl

theorem size_pop (ring : Ring) (n : Nat) : (ring.pop n).1.size = ring.size - min n ring.size :=
  rfl

/-- **Popping takes off the front.** What is left are the bytes behind those taken. -/
theorem contents_pop (ring : Ring) (n : Nat) :
    (ring.pop n).1.contents = ring.contents.drop n := by
  apply List.ext_getElem
  · rw [length_contents, size_pop, List.length_drop, length_contents]
    omega
  · intro i hi hi'
    rw [length_contents, size_pop] at hi
    rw [getElem_contents, List.getElem_drop, getElem_contents]
    show ring.cells.getD (((ring.head + min n ring.size) % ring.capacity + i) % ring.capacity) 0
      = _
    have hmin : min n ring.size = n := by omega
    rw [hmin, Nat.mod_add_mod, Nat.add_assoc]

/-- The bytes that a pop gives: one stretch up to the end of the array, one from its
beginning. -/
theorem bytes_pop (ring : Ring) (n : Nat) : (ring.pop n).2 = ring.contents.take n := by
  have hhead : ring.head < ring.capacity := ring.head_lt
  have hsize : ring.size ≤ ring.capacity := ring.size_le
  have hcap : ring.capacity = ring.cells.size := rfl
  apply List.ext_getElem
  · simp only [pop, List.length_append, Array.length_toList, Array.size_extract,
      List.length_take, length_contents]
    omega
  · intro i hi hi'
    rw [List.length_take, length_contents] at hi'
    have hplace := mod_cases (a := ring.head + i) (c := ring.capacity) (by omega)
    have hcell : (ring.head + i) % ring.capacity < ring.cells.size :=
      Nat.mod_lt _ ring.capacity_pos
    rw [List.getElem_take, getElem_contents, Array.getD_eq_getD_getElem?,
      Array.getElem?_eq_getElem hcell, Option.getD_some]
    simp only [pop, List.getElem_append, Array.length_toList, Array.size_extract,
      Array.getElem_toList, Array.getElem_extract]
    by_cases hfirst : i < ring.capacity - ring.head
    · rw [dif_pos (by omega)]
      congr 1
      omega
    · rw [dif_neg (by omega)]
      congr 1
      omega

end Ring

end Parley
