import Parley.Text.Digits

/-!
# Numbers as option values

A number is a run of decimal digits, which may have a plus sign in front. One that is read
as a signed number may have a minus sign instead, so zero has one more spelling.
-/

namespace Parley.CommandLine

/-- A number below `limit`. -/
def natBelow? (limit : Nat) (text : String) : Option Nat :=
  let number := match text.toList with
    | '+' :: digits => Digits.number? 10 digits
    | digits => Digits.number? 10 digits
  number.filter (· < limit)

/-- A number below `limit` that may be spelled as a signed one. -/
def intBelow? (limit : Nat) (text : String) : Option Nat :=
  match text.toList with
  | '-' :: digits => (Digits.number? 10 digits).filter (· = 0)
  | _ => natBelow? limit text

end Parley.CommandLine
