import Parley.BigEndian
import Parley.Field.Basic
import Parley.Text.Utf8

/-!
# The bytes of a field

A field is its kind's tag and a payload. Numbers are big-endian words of their width. A
nullable value is a presence byte, zero or one, and the value if there is one. A string is
its byte length as an eight-byte word and its UTF-8 bytes, a sequence the count of its
strings and the strings.
-/

namespace Parley.Field

/-- A string: its byte length, then its bytes. -/
def encodeText (text : String) : List UInt8 :=
  bigEndian 8 (Utf8.encode text).length ++ Utf8.encode text

/-- A sequence of strings: their count, then the strings. -/
def encodeTexts (texts : List String) : List UInt8 :=
  bigEndian 8 texts.length ++ texts.flatMap encodeText

/-- A value that may be null, after the byte that tells. -/
def encodeNullable {α : Type} (encode : α → List UInt8) : Option α → List UInt8
  | none => [0]
  | some value => 1 :: encode value

/-- What follows the tag. -/
def payload : Field → List UInt8
  | bool value => [value.toUInt8]
  | byte value => [value.toUInt8]
  | short value => bigEndian 2 value.toUInt16.toNat
  | int value => bigEndian 4 value.toUInt32.toNat
  | long value => bigEndian 8 value.toUInt64.toNat
  | float value => bigEndian 4 value.bits.toNat
  | double value => bigEndian 8 value.bits.toNat
  | string value => encodeNullable encodeText value
  | timestamp value => encodeNullable (fun millis => bigEndian 8 millis.toUInt64.toNat) value
  | stringList value => encodeNullable encodeTexts value
  | stringArray value => encodeNullable encodeTexts value

/-- The bytes of a field. -/
def encode (field : Field) : List UInt8 := field.kind.tag :: field.payload

theorem length_encodeText (text : String) :
    (encodeText text).length = 8 + text.utf8ByteSize := by
  simp [encodeText, Utf8.length_encode]

end Parley.Field
