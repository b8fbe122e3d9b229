import Parley.Field.Decode
import Parley.Instant

/-!
# Messages

A message is a sequence of fields without keys. A producer puts fields at its end; a consumer
gets them in the same order, naming the kind it expects each time.

**The cursor.** It counts the fields already read. A get of the wrong kind, or past the end,
is refused and leaves it in place. A timestamp that the calendar does not have counts as read
although the get fails.

**Values** (`Kind.Value`). A field of each kind has a type of values that the puts take and
the gets give. It is what the field holds, except that a timestamp is given as an `Instant`
and held as a count of milliseconds.
-/

namespace Parley

/-- What a field of the kind is put and got as. -/
abbrev Kind.Value : Kind → Type
  | .bool => Bool
  | .byte => Int8
  | .short => Int16
  | .int => Int32
  | .long => Int64
  | .float => Binary32
  | .double => Binary64
  | .string => Option String
  | .timestamp => Option Instant
  | .stringList => Option (List String)
  | .stringArray => Option (List String)

/-- Why a message cannot be read. -/
inductive MessageError
  | kindMismatch (position : Nat) (expected found : Kind)
  | exhausted (position : Nat) (expected : Kind)
  | invalidTimestamp (millis : Int64)
  | undecodable (cause : DecodeError)
  deriving DecidableEq, Repr

def MessageError.message : MessageError → String
  | kindMismatch position expected found =>
    s!"field {position}: expected {expected.name}, found {found.name}"
  | exhausted position expected =>
    s!"field {position}: expected {expected.name}, but the message has no more fields"
  | invalidTimestamp millis => s!"timestamp {millis.toInt}ms is out of range"
  | undecodable cause => "failed to decode message: " ++ cause.describe

namespace Field

/-- The field that holds a value. -/
def ofValue : (kind : Kind) → kind.Value → Field
  | .bool, value => bool value
  | .byte, value => byte value
  | .short, value => short value
  | .int, value => int value
  | .long, value => long value
  | .float, value => float value
  | .double, value => double value
  | .string, value => string value
  | .timestamp, value => timestamp (value.map fun t => .ofInt t.millis)
  | .stringList, value => stringList value
  | .stringArray, value => stringArray value

/-- The instant of a held timestamp. -/
def instant : Option Int64 → Except MessageError (Option Instant)
  | none => .ok none
  | some millis =>
    match Instant.ofMillis? millis.toInt with
    | some t => .ok (some t)
    | none => .error (.invalidTimestamp millis)

/-- The value that the field holds, if it is of the kind. -/
def value? : (kind : Kind) → Field → Option (Except MessageError kind.Value)
  | .bool, bool value => some (.ok value)
  | .byte, byte value => some (.ok value)
  | .short, short value => some (.ok value)
  | .int, int value => some (.ok value)
  | .long, long value => some (.ok value)
  | .float, float value => some (.ok value)
  | .double, double value => some (.ok value)
  | .string, string value => some (.ok value)
  | .timestamp, timestamp value => some (instant value)
  | .stringList, stringList value => some (.ok value)
  | .stringArray, stringArray value => some (.ok value)
  | _, _ => none

@[simp] theorem kind_ofValue (kind : Kind) (value : kind.Value) :
    (ofValue kind value).kind = kind := by
  cases kind <;> rfl

theorem isSome_value? (kind : Kind) (field : Field) :
    (field.value? kind).isSome ↔ field.kind = kind := by
  cases kind <;> cases field <;> simp [value?, Field.kind]

end Field

/-- An ordered record of fields, with the number of fields already read. -/
structure Message where
  fields : Array Field := #[]
  cursor : Nat := 0
  deriving DecidableEq

namespace Message

/-- The number of fields. -/
def size (message : Message) : Nat := message.fields.size

def isEmpty (message : Message) : Bool := message.fields.isEmpty

/-- The number of fields not yet read. -/
def remaining (message : Message) : Nat := message.fields.size - message.cursor

/-- Goes back to the first field. -/
def rewind (message : Message) : Message := { message with cursor := 0 }

/-- The kinds of all fields, in order. -/
def kinds (message : Message) : List Kind := message.fields.toList.map Field.kind

/-- Adds a field at the end. -/
def push (message : Message) (field : Field) : Message :=
  { message with fields := message.fields.push field }

/-- Adds a value at the end. -/
def put (message : Message) (kind : Kind) (value : kind.Value) : Message :=
  message.push (.ofValue kind value)

/-- Reads the next field as a value of the given kind. -/
def get (message : Message) (kind : Kind) : Except MessageError kind.Value × Message :=
  match message.fields[message.cursor]? with
  | none => (.error (.exhausted message.cursor kind), message)
  | some field =>
    match field.value? kind with
    | none => (.error (.kindMismatch message.cursor kind field.kind), message)
    | some value => (value, { message with cursor := message.cursor + 1 })

/-- Whether two messages hold the same contents; how far they are read does not matter. -/
def sameContents (x y : Message) : Bool :=
  x.fields.isEqv y.fields Field.sameContents

/-- Reads so many fields, each as a value of its own kind, after the values already read. A
failure ends the reading. -/
def drainAfter (message : Message) (done : Array ((kind : Kind) × kind.Value)) :
    Nat → Except MessageError (Array ((kind : Kind) × kind.Value)) × Message
  | 0 => (.ok done, message)
  | n + 1 =>
    match message.fields[message.cursor]? with
    | none => (.ok done, message)
    | some field =>
      match message.get field.kind with
      | (.ok value, rest) => rest.drainAfter (done.push ⟨field.kind, value⟩) n
      | (.error error, rest) => (.error error, rest)

/-- Reads all remaining fields, each as a value of its own kind. -/
def drain (message : Message) :
    Except MessageError (Array ((kind : Kind) × kind.Value)) × Message :=
  message.drainAfter #[] message.remaining

@[simp] theorem fields_push (message : Message) (field : Field) :
    (message.push field).fields = message.fields.push field := rfl

@[simp] theorem cursor_push (message : Message) (field : Field) :
    (message.push field).cursor = message.cursor := rfl

@[simp] theorem fields_get (message : Message) (kind : Kind) :
    (message.get kind).2.fields = message.fields := by
  unfold get
  split
  · rfl
  · split <;> rfl

end Message

end Parley
