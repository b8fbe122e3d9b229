import Parley.Field.Encode
import Parley.Message.Basic

/-!
# The body of a message

The body is the fields' bytes one after the other. Reading it back takes field after field
until nothing is left, and refuses a timestamp that the calendar does not have as soon as its
field has been read.
-/

namespace Parley.Message

/-- The bytes of all fields, read or not. -/
def encode (message : Message) : List UInt8 := message.fields.toList.flatMap Field.encode

/-- The timestamp of a field that the calendar does not have. -/
def strayTimestamp? : Field → Option Int64
  | .timestamp (some millis) =>
    if (Instant.ofMillis? millis.toInt).isSome then none else some millis
  | _ => none

/-- The fields that the bytes hold, after the ones already read. -/
def decodeAfter (done : Array Field) (body : List UInt8) : Except MessageError (Array Field) :=
  if body.isEmpty then .ok done
  else
    match _h : Field.decode body with
    | .error cause => .error (.undecodable cause)
    | .ok (field, rest) =>
      match strayTimestamp? field with
      | some millis => .error (.invalidTimestamp millis)
      | none => decodeAfter (done.push field) rest
termination_by body.length
decreasing_by exact Field.length_lt_of_decode _h

/-- The message whose body the bytes are, not yet read from. -/
def decode (body : List UInt8) : Except MessageError Message :=
  (decodeAfter #[] body).map fun fields => { fields }

end Parley.Message
