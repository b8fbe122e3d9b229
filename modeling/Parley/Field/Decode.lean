import Parley.BigEndian
import Parley.Field.Basic
import Parley.Text.Utf8

/-!
# Reading a field

`Field.decode` reads one field off the front of a body and hands on the rest. The decoders are
written for any monad that has what they are made of (`Decoding`), so that a reading can be told of
the lengths that it lets through.

**Declared lengths.** A string declares its bytes and a sequence its strings, up to
`2 ^ 64 - 1` of them. Before anything is read under such a length, it is held against the
bytes left in the body, counted from the tag of the field: a string may declare no more
bytes than these, a sequence no more than an eighth of them, because every string of it has
an eight-byte length of its own. A length that passes may still be too long; then the reads
under it run out of bytes.

**Running out.** Both faults are `unexpectedEnd` and say how many bytes are missing: for a
read the bytes it lacked, for a declared length the excess over the bound in bytes, at most
`2 ^ 64 - 1`.
-/

namespace Parley

/-- Why bytes are no field. -/
inductive DecodeError
  /-- A read or a declared length needs so many more bytes. -/
  | unexpectedEnd (additional : Nat)
  /-- A tag that announces no kind. -/
  | unknownTag (found : UInt8)
  /-- A presence byte of a field of this kind that is neither zero nor one. -/
  | badPresence (kind : Kind) (found : UInt8)
  /-- A boolean that is neither zero nor one. -/
  | badBool (found : UInt8)
  /-- A string that is not UTF-8. -/
  | badText (fault : Utf8.Fault)
  deriving DecidableEq, Repr

namespace DecodeError

/-- How a byte outside the range of a variant is shown. -/
def describeVariant (type : String) (max : Nat) (found : UInt8) : String :=
  "UnexpectedVariant \x7b type_name: \"" ++ type ++ "\", allowed: Range \x7b min: 0, max: "
    ++ toString max ++ " \x7d, found: " ++ toString found ++ " \x7d"

/-- How an error is shown inside an error text. -/
def describe : DecodeError → String
  | unexpectedEnd additional =>
    "UnexpectedEnd \x7b additional: " ++ toString additional ++ " \x7d"
  | unknownTag found => describeVariant "Field" 10 found
  | badPresence .timestamp found => describeVariant "core::option::Option<i64>" 1 found
  | badPresence _ found => describeVariant "Option" 1 found
  | badBool found => s!"InvalidBooleanValue({found})"
  | badText fault => "Utf8 \x7b inner: " ++ fault.describe ++ " \x7d"

end DecodeError

/-- What decoders are made of. -/
class Decoding (m : Type → Type) where
  /-- All the bytes that are left. -/
  left : m (List UInt8)
  /-- The next `n` bytes. -/
  bytes (n : Nat) : m (List UInt8)
  refuse {α : Type} (error : DecodeError) : m α
  /-- A declared length is let through, for elements of at least `size` bytes each. -/
  grant (size length : Nat) : m Unit

/-- Reads a value off the front of the bytes, which become what follows it. -/
abbrev Decoder : Type → Type := StateT (List UInt8) (Except DecodeError)

/-- Nothing is kept of the lengths that are let through. -/
instance : Decoding Decoder where
  left := get
  bytes n input :=
    let front := input.take n
    if front.length = n then .ok (front, input.drop n)
    else .error (.unexpectedEnd (n - front.length))
  refuse := throw
  grant _ _ := return

namespace Decoder

open Decoding

section Definitions

variable {m : Type → Type} [Monad m] [Decoding m]

/-- An unsigned number of `width` bytes. -/
def word (width : Nat) : m Nat := return ofBigEndian (← bytes width)

/-- One byte. -/
def byte : m UInt8 := return .ofNat (← word 1)

def bool : m Bool := do
  match ← byte with
  | 0 => return false
  | 1 => return true
  | found => refuse (.badBool found)

/-- A value that may be null, in a field of the given kind. -/
def nullable {α : Type} (kind : Kind) (value : m α) : m (Option α) := do
  match ← byte with
  | 0 => return none
  | 1 => return some (← value)
  | found => refuse (.badPresence kind found)

/-- A declared length of elements that take at least `size` bytes each, where `bound` bytes
are left in the body. -/
def count (bound size : Nat) : m Nat := do
  let declared ← word 8
  if declared ≤ bound / size then
    grant size declared
    return declared
  else refuse (.unexpectedEnd (min ((declared - bound / size) * size) (UInt64.size - 1)))

/-- A string. -/
def text (bound : Nat) : m String := do
  let content ← bytes (← count bound 1)
  match Utf8.decode content with
  | .ok text => return text
  | .error fault => refuse (.badText fault)

/-- So many strings, after the ones already read. -/
def textsAfter (bound : Nat) : Nat → Array String → m (Array String)
  | 0, done => return done
  | n + 1, done => do textsAfter bound n (done.push (← text bound))

/-- A sequence of strings. -/
def texts (bound : Nat) : m (List String) := do
  return (← textsAfter bound (← count bound 8) #[]).toList

/-- What follows the tag of a field of the given kind, in a body that is `body` from the tag
on. -/
def payload (body : List UInt8) : Kind → m Field
  | .bool => return .bool (← bool)
  | .byte => return .byte (← byte).toInt8
  | .short => return .short (UInt16.ofNat (← word 2)).toInt16
  | .int => return .int (UInt32.ofNat (← word 4)).toInt32
  | .long => return .long (UInt64.ofNat (← word 8)).toInt64
  | .float => return .float ⟨.ofNat (← word 4)⟩
  | .double => return .double ⟨.ofNat (← word 8)⟩
  | .string => return .string (← nullable .string (text body.length))
  | .timestamp => do
    let millis ← nullable .timestamp (word 8)
    return .timestamp (millis.map fun n => (UInt64.ofNat n).toInt64)
  | .stringList => return .stringList (← nullable .stringList (texts body.length))
  | .stringArray => return .stringArray (← nullable .stringArray (texts body.length))

/-- One field. -/
def field : m Field := do
  let body ← left
  let tag ← byte
  match Kind.ofTag? tag with
  | some kind => payload body kind
  | none => refuse (.unknownTag tag)

end Definitions

/-! ## What a decoder leaves

Every decoder hands on an end of its input, and `Field.decode` a proper one. -/

/-- Whatever is read, what is left is an end of the input. -/
def LeavesSuffix {α : Type} (decoder : Decoder α) : Prop :=
  ∀ ⦃input value rest⦄, decoder input = .ok (value, rest) → rest <:+ input

theorem leavesSuffix_pure {α : Type} (value : α) : LeavesSuffix (pure value) := by
  intro input _ rest h
  cases h
  exact List.suffix_refl _

theorem leavesSuffix_refuse {α : Type} (error : DecodeError) :
    LeavesSuffix (refuse error : Decoder α) := by
  intro input _ rest h
  cases h

theorem leavesSuffix_bind {α β : Type} {first : Decoder α} {next : α → Decoder β}
    (hf : LeavesSuffix first) (hn : ∀ value, LeavesSuffix (next value)) :
    LeavesSuffix (first >>= next) := by
  intro input value rest h
  simp only [bind, StateT.bind, Except.bind] at h
  split at h
  · cases h
  · next result heq => exact (hn _ h).trans (hf heq)

theorem leavesSuffix_bytes (n : Nat) : LeavesSuffix (bytes n) := by
  intro input value rest h
  simp only [bytes] at h
  split at h
  · cases h
    exact List.drop_suffix n input
  · cases h

theorem leavesSuffix_word (width : Nat) : LeavesSuffix (word width) :=
  leavesSuffix_bind (leavesSuffix_bytes width) fun _ => leavesSuffix_pure _

theorem leavesSuffix_byte : LeavesSuffix byte :=
  leavesSuffix_bind (leavesSuffix_word 1) fun _ => leavesSuffix_pure _

theorem leavesSuffix_bool : LeavesSuffix bool := by
  refine leavesSuffix_bind leavesSuffix_byte fun value => ?_
  split
  · exact leavesSuffix_pure _
  · exact leavesSuffix_pure _
  · exact leavesSuffix_refuse _

theorem leavesSuffix_nullable {α : Type} (kind : Kind) {value : Decoder α}
    (h : LeavesSuffix value) : LeavesSuffix (nullable kind value) := by
  refine leavesSuffix_bind leavesSuffix_byte fun presence => ?_
  split
  · exact leavesSuffix_pure _
  · exact leavesSuffix_bind h fun _ => leavesSuffix_pure _
  · exact leavesSuffix_refuse _

theorem leavesSuffix_count (bound size : Nat) : LeavesSuffix (count bound size) := by
  refine leavesSuffix_bind (leavesSuffix_word 8) fun declared => ?_
  split
  · exact leavesSuffix_pure _
  · exact leavesSuffix_refuse _

theorem leavesSuffix_text (bound : Nat) : LeavesSuffix (text bound) := by
  refine leavesSuffix_bind (leavesSuffix_count bound 1) fun n =>
    leavesSuffix_bind (leavesSuffix_bytes n) fun content => ?_
  split
  · exact leavesSuffix_pure _
  · exact leavesSuffix_refuse _

theorem leavesSuffix_textsAfter (bound n : Nat) (done : Array String) :
    LeavesSuffix (textsAfter bound n done) := by
  induction n generalizing done with
  | zero => exact leavesSuffix_pure _
  | succ n ih => exact leavesSuffix_bind (leavesSuffix_text bound) fun _ => ih _

theorem leavesSuffix_texts (bound : Nat) : LeavesSuffix (texts bound) :=
  leavesSuffix_bind (leavesSuffix_count bound 8) fun n =>
    leavesSuffix_bind (leavesSuffix_textsAfter bound n #[]) fun _ => leavesSuffix_pure _

theorem leavesSuffix_payload (body : List UInt8) (kind : Kind) :
    LeavesSuffix (payload body kind) := by
  cases kind <;> refine leavesSuffix_bind ?_ fun _ => leavesSuffix_pure _
  · exact leavesSuffix_bool
  · exact leavesSuffix_byte
  · exact leavesSuffix_word 2
  · exact leavesSuffix_word 4
  · exact leavesSuffix_word 8
  · exact leavesSuffix_word 4
  · exact leavesSuffix_word 8
  · exact leavesSuffix_nullable _ (leavesSuffix_text _)
  · exact leavesSuffix_nullable _ (leavesSuffix_word 8)
  · exact leavesSuffix_nullable _ (leavesSuffix_texts _)
  · exact leavesSuffix_nullable _ (leavesSuffix_texts _)

theorem bind_of_ok {α β : Type} {first : Decoder α} {next : α → Decoder β} {value : α}
    {input rest : List UInt8} (h : first input = .ok (value, rest)) :
    (first >>= next) input = next value rest := by
  simp only [bind, StateT.bind, Except.bind, h]

theorem byte_cons (b : UInt8) (input : List UInt8) :
    (byte : Decoder UInt8) (b :: input) = .ok (b, input) := by
  have h : UInt8.ofNat (ofBigEndian [b]) = b := by simp [ofBigEndian]
  exact congrArg (fun first => Except.ok (first, input)) h

end Decoder

namespace Field

/-- Reads one field. -/
def decode : Decoder Field := Decoder.field

theorem decode_cons (tag : UInt8) (input : List UInt8) :
    decode (tag :: input) = match Kind.ofTag? tag with
      | some kind => (Decoder.payload (tag :: input) kind : Decoder Field) input
      | none => .error (.unknownTag tag) := by
  have hbody : (Decoding.left : Decoder (List UInt8)) (tag :: input) =
      .ok (tag :: input, tag :: input) := rfl
  have htag := Decoder.byte_cons tag input
  rw [decode, Decoder.field, Decoder.bind_of_ok hbody, Decoder.bind_of_ok htag]
  cases Kind.ofTag? tag <;> rfl

theorem length_lt_of_decode {input rest : List UInt8} {field : Field}
    (h : decode input = .ok (field, rest)) : rest.length < input.length := by
  cases input with
  | nil => cases h
  | cons tag input =>
    rw [decode_cons] at h
    split at h
    · exact Nat.lt_succ_of_le (Decoder.leavesSuffix_payload _ _ h).length_le
    · cases h

end Field

end Parley
