import Parley.Binary

/-!
# Fields

A field is one value of a message. There are eleven kinds; strings, timestamps and the two
kinds of string sequence may be null.
-/

namespace Parley

/-- What a field holds. -/
inductive Kind
  | bool
  | byte
  | short
  | int
  | long
  | float
  | double
  | string
  | timestamp
  | stringList
  | stringArray
  deriving DecidableEq, Repr

namespace Kind

/-- The name that messages about fields use. -/
def name : Kind → String
  | bool => "bool"
  | byte => "byte"
  | short => "short"
  | int => "int"
  | long => "long"
  | float => "float"
  | double => "double"
  | string => "string"
  | timestamp => "timestamp"
  | stringList => "string list"
  | stringArray => "string array"

/-- The byte that announces the kind. -/
def tag : Kind → UInt8
  | bool => 0
  | byte => 1
  | short => 2
  | int => 3
  | long => 4
  | float => 5
  | double => 6
  | string => 7
  | timestamp => 8
  | stringList => 9
  | stringArray => 10

/-- The kind that a byte announces. -/
def ofTag? (tag : UInt8) : Option Kind :=
  [bool, byte, short, int, long, float, double, string, timestamp, stringList,
    stringArray][tag.toNat]?

@[simp] theorem ofTag?_tag (kind : Kind) : ofTag? kind.tag = some kind := by
  cases kind <;> rfl

end Kind

/-- One value of a message. -/
inductive Field
  | bool (value : Bool)
  | byte (value : Int8)
  | short (value : Int16)
  | int (value : Int32)
  | long (value : Int64)
  | float (value : Binary32)
  | double (value : Binary64)
  | string (value : Option String)
  /-- Milliseconds since the Unix epoch. -/
  | timestamp (value : Option Int64)
  | stringList (value : Option (List String))
  | stringArray (value : Option (List String))
  deriving DecidableEq

namespace Field

def kind : Field → Kind
  | bool _ => .bool
  | byte _ => .byte
  | short _ => .short
  | int _ => .int
  | long _ => .long
  | float _ => .float
  | double _ => .double
  | string _ => .string
  | timestamp _ => .timestamp
  | stringList _ => .stringList
  | stringArray _ => .stringArray

/-- Equality of contents: floating-point numbers are compared as numbers, all else exactly. -/
def sameContents : Field → Field → Bool
  | float x, float y => x.numEq y
  | double x, double y => x.numEq y
  | x, y => x == y

end Field

end Parley
