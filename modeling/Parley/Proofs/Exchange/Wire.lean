import Parley.Exchange.Wire

/-!
# What a wire holds

A wire gives out what was put on it, in order. What a socket sends goes behind what is held, and
what it reads comes off the front; a socket that is shut down takes no more, and brings what it
holds and then the end.
-/

namespace Parley.Wire

variable {wire wire' : Wire} {bytes : List UInt8} {n : Nat}

theorem held_of_send (h : wire.send bytes = some wire') : wire'.held = wire.held ++ bytes := by
  unfold send at h
  split at h
  · cases h; rfl
  · cases h

theorem held_of_receive (h : wire.receive n = some (bytes, wire')) :
    wire.held = bytes ++ wire'.held := by
  unfold receive at h
  split at h
  · split at h
    · cases h
    · cases h; rfl
  · cases h
    exact (List.take_append_drop _ _).symm

theorem not_cut_of_send (h : wire.send bytes = some wire') : wire.cut = false := by
  unfold send at h
  split at h
  · next hopen =>
    simp only [isOpen, Bool.and_eq_true, Bool.not_eq_true'] at hopen
    exact hopen.1.2
  · cases h

theorem receive_of_cut (h : wire.cut = true) (n : Nat) :
    wire.receive n = some (wire.held.take n, { wire with held := wire.held.drop n }) := by
  obtain ⟨capacity, held, ended, cut⟩ := wire
  obtain rfl : cut = true := h
  cases held with
  | nil => simp [receive, isOpen]
  | cons byte more => rfl

theorem exists_receive (h : wire.held ≠ [] ∨ wire.isOpen = false) (n : Nat) :
    ∃ bytes wire', wire.receive n = some (bytes, wire') ∧ bytes.length ≤ n := by
  unfold receive
  split
  · next hempty =>
    have hclosed : wire.isOpen = false := by
      rcases h with hne | hclosed
      · exact absurd (List.isEmpty_iff.mp hempty) hne
      · exact hclosed
    rw [hclosed]
    exact ⟨[], wire, rfl, Nat.zero_le n⟩
  · exact ⟨_, _, rfl, List.length_take_le _ _⟩

theorem exists_send (hopen : wire.isOpen = true) (hroom : 0 < wire.room) (byte : UInt8) :
    ∃ wire', wire.send [byte] = some wire' := by
  have hle : [byte].length ≤ wire.room := hroom
  exact ⟨_, if_pos (by rw [hopen, decide_eq_true hle]; rfl)⟩

theorem held_ne_nil_of_full (hpos : 0 < wire.capacity) (hfull : wire.room = 0) :
    wire.held ≠ [] := by
  intro hnil
  rw [room, hnil] at hfull
  exact absurd hfull (Nat.ne_of_gt hpos)

/-- A wire stays as wide as it is, and a socket that is shut down stays so. -/
structure Keeps (wire wire' : Wire) : Prop where
  capacity : wire'.capacity = wire.capacity
  ended : wire.ended = true → wire'.ended = true
  cut : wire.cut = true → wire'.cut = true

theorem Keeps.refl (wire : Wire) : wire.Keeps wire := ⟨rfl, id, id⟩

theorem keeps_send (h : wire.send bytes = some wire') : wire.Keeps wire' := by
  unfold send at h
  split at h
  · cases h; exact ⟨rfl, id, id⟩
  · cases h

theorem keeps_receive (h : wire.receive n = some (bytes, wire')) : wire.Keeps wire' := by
  unfold receive at h
  split at h
  · split at h
    · cases h
    · cases h; exact .refl wire
  · cases h; exact ⟨rfl, id, id⟩

theorem isOpen_of_receive (h : wire.receive n = some (bytes, wire')) :
    wire'.isOpen = wire.isOpen := by
  unfold receive at h
  split at h
  · split at h
    · cases h
    · cases h; rfl
  · cases h; rfl

/-- A read brings the end of the stream only where nothing is held or can be sent. -/
theorem eq_of_receive_nil (hn : 0 < n) (h : wire.receive n = some ([], wire')) :
    wire' = wire ∧ wire.held = [] ∧ wire.isOpen = false := by
  unfold receive at h
  split at h
  · next hempty =>
    split at h
    · cases h
    · next hopen =>
      cases h
      exact ⟨rfl, List.isEmpty_iff.mp hempty, by simpa using hopen⟩
  · next hne =>
    obtain ⟨hnil, -⟩ := Prod.mk.inj (Option.some.inj h)
    rcases List.take_eq_nil_iff.mp hnil with hzero | hheld
    · omega
    · simp [hheld] at hne

/-- The wire takes these bytes, if there are any. -/
def Takes (wire : Wire) (bytes : List UInt8) (wire' : Wire) : Prop :=
  bytes = [] ∧ wire' = wire ∨ wire.send bytes = some wire'

theorem Takes.held (h : wire.Takes bytes wire') : wire'.held = wire.held ++ bytes := by
  rcases h with ⟨rfl, rfl⟩ | hsend
  · exact (List.append_nil _).symm
  · exact held_of_send hsend

theorem Takes.keeps (h : wire.Takes bytes wire') : wire.Keeps wire' := by
  rcases h with ⟨-, rfl⟩ | hsend
  · exact .refl _
  · exact keeps_send hsend

theorem Takes.isOpen (h : wire.Takes bytes wire') : wire'.isOpen = wire.isOpen := by
  rcases h with ⟨-, rfl⟩ | hsend
  · rfl
  · unfold send at hsend
    split at hsend
    · cases hsend; rfl
    · cases hsend

end Parley.Wire
