/-!
# Instants

A point in time as whole seconds since the Unix epoch and nanoseconds within the second. A
leap second is told apart from the second after it: it belongs to the second before it and has
nanoseconds from `10 ^ 9` on. Any second may have one, but `ofSeconds?` names only those at
the end of a minute.

**Range.** The calendar covers the years -262143 to 262142, which are the seconds from
`minSeconds` to `maxSeconds`.

**Milliseconds.** `millis` drops what is below a millisecond, rounding down, and counts a
leap second as the second after it. `ofMillis?` goes the other way and names no leap second.
-/

namespace Parley

namespace Instant

/-- The first second of the calendar. -/
def minSeconds : Int := -8334601228800

/-- The last second of the calendar. -/
def maxSeconds : Int := 8210266876799

/-- Seconds within the calendar, and nanoseconds within the second or within a leap second. -/
def Valid (seconds : Int) (nanos : Nat) : Prop :=
  (minSeconds ≤ seconds ∧ seconds ≤ maxSeconds) ∧ nanos < 2000000000

instance (seconds : Int) (nanos : Nat) : Decidable (Valid seconds nanos) := by
  unfold Valid
  exact inferInstance

end Instant

/-- A point in time. -/
structure Instant where
  /-- Whole seconds since 1970-01-01T00:00:00Z. -/
  seconds : Int
  /-- Nanoseconds after them; `10 ^ 9` or more in a leap second. -/
  nanos : Nat
  valid : Instant.Valid seconds nanos
  deriving DecidableEq

namespace Instant

/-- The instant of these seconds and nanoseconds, if there is one. -/
def ofSeconds? (seconds : Int) (nanos : Nat) : Option Instant :=
  if h : Valid seconds nanos ∧ (nanos < 1000000000 ∨ seconds % 60 = 59) then
    some ⟨seconds, nanos, h.1⟩
  else none

/-- Whole milliseconds since the epoch. -/
def millis (t : Instant) : Int := t.seconds * 1000 + (t.nanos / 1000000 : Nat)

/-- The instant of a count of milliseconds, if the calendar has it. -/
def ofMillis? (millis : Int) : Option Instant :=
  ofSeconds? (millis / 1000) ((millis % 1000).toNat * 1000000)

/-- The calendar covers exactly these milliseconds. -/
theorem isSome_ofMillis? (millis : Int) :
    (ofMillis? millis).isSome ↔ -8334601228800000 ≤ millis ∧ millis ≤ 8210266876799999 := by
  unfold ofMillis? ofSeconds?
  split
  · next h =>
    simp only [Valid, minSeconds, maxSeconds] at h
    simp only [Option.isSome_some, true_iff]
    omega
  · next h =>
    simp only [Valid, minSeconds, maxSeconds] at h
    simp only [Option.isSome_none, Bool.false_eq_true, false_iff]
    omega

theorem millis_of_ofMillis? {millis : Int} {t : Instant} (h : ofMillis? millis = some t) :
    t.millis = millis := by
  unfold ofMillis? ofSeconds? at h
  split at h
  · cases h
    simp only [Instant.millis]
    omega
  · cases h

theorem millis_bounds (t : Instant) :
    -8334601228800000 ≤ t.millis ∧ t.millis < 8210266876801000 := by
  have h := t.valid
  simp only [Valid, minSeconds, maxSeconds] at h
  simp only [millis]
  omega

end Instant

end Parley
