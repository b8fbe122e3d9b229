/-!
# Numbers in digits

The number that a run of ASCII digits spells, to a base of sixteen or less. The digits from ten on
are letters of either case. Leading zeros do not count, and no digits spell no number.
-/

namespace Parley.Digits

/-- What a digit stands for. -/
def value? (digit : Char) : Option Nat :=
  if digit.isDigit then some (digit.toNat - '0'.toNat)
  else if 'a' ≤ digit ∧ digit ≤ 'f' then some (digit.toNat - 'a'.toNat + 10)
  else if 'A' ≤ digit ∧ digit ≤ 'F' then some (digit.toNat - 'A'.toNat + 10)
  else none

/-- The number that is spelled so far, with one more digit. -/
def append? (base n : Nat) (digit : Char) : Option Nat :=
  ((value? digit).filter (· < base)).map (n * base + ·)

/-- The number that digits spell. -/
def number? (base : Nat) (digits : List Char) : Option Nat :=
  if digits.isEmpty then none else digits.foldlM (append? base) 0

end Parley.Digits
