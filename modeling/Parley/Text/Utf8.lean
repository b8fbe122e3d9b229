/-!
# Text as UTF-8 bytes

Bytes are text when they are a UTF-8 string, and `decode` accepts exactly those. Bytes that
are no text have a first fault, found by a scan that reads one byte at a time.

**The scan** (`Scan`). It knows where the current character starts, how many of its bytes
were read, how many are still owed, and between which bounds the next one must lie. The
bounds are narrower than a continuation byte's only for the second byte after `E0`, `ED`,
`F0` and `F4`; this excludes overlong forms, surrogates and code points above `10FFFF`.

**The fault** (`Fault`). A byte outside the bounds ends the scan, and the bytes of its
character read so far are the ones at fault, or the byte itself if it can start no
character. Bytes that stop inside a character have a fault without a length: more bytes
could have completed it.
-/

namespace Parley.Utf8

/-- Where bytes stop being UTF-8. -/
structure Fault where
  /-- How many bytes in front are complete characters. -/
  validUpTo : Nat
  /-- How many bytes after them are at fault, unless the input merely stops too early. -/
  errorLength : Option Nat
  deriving DecidableEq, Repr

/-- How a fault is shown inside an error text. -/
def Fault.describe (fault : Fault) : String :=
  let length := match fault.errorLength with
    | some n => s!"Some({n})"
    | none => "None"
  "Utf8Error \x7b valid_up_to: " ++ toString fault.validUpTo ++ ", error_len: " ++ length
    ++ " \x7d"

/-- The state of the scan: the next byte has to lie between `low` and `high` if any is owed. -/
structure Scan where
  /-- Where the current character starts. -/
  start : Nat := 0
  /-- How many of its bytes were read. -/
  seen : Nat := 0
  /-- How many more it needs. -/
  owed : Nat := 0
  low : UInt8 := 0x80
  high : UInt8 := 0xBF

namespace Scan

/-- Reads the first byte of a character. -/
def first (scan : Scan) (byte : UInt8) : Except Fault Scan :=
  let begin (owed : Nat) (low high : UInt8) : Except Fault Scan :=
    .ok { scan with seen := 1, owed, low, high }
  if byte < 0x80 then .ok { start := scan.start + 1 }
  else if byte < 0xC2 then .error ⟨scan.start, some 1⟩
  else if byte ≤ 0xDF then begin 1 0x80 0xBF
  else if byte = 0xE0 then begin 2 0xA0 0xBF
  else if byte = 0xED then begin 2 0x80 0x9F
  else if byte ≤ 0xEF then begin 2 0x80 0xBF
  else if byte = 0xF0 then begin 3 0x90 0xBF
  else if byte ≤ 0xF3 then begin 3 0x80 0xBF
  else if byte = 0xF4 then begin 3 0x80 0x8F
  else .error ⟨scan.start, some 1⟩

/-- Reads a byte that the current character still owes. -/
def further (scan : Scan) (byte : UInt8) : Except Fault Scan :=
  if scan.low ≤ byte ∧ byte ≤ scan.high then
    if scan.owed = 1 then .ok { start := scan.start + scan.seen + 1 }
    else .ok { start := scan.start, seen := scan.seen + 1, owed := scan.owed - 1 }
  else .error ⟨scan.start, some scan.seen⟩

/-- Reads one byte. -/
def step (scan : Scan) (byte : UInt8) : Except Fault Scan :=
  if scan.owed = 0 then scan.first byte else scan.further byte

/-- Scans to the first fault; the end of the bytes is one too, without a length. -/
def run (scan : Scan) : List UInt8 → Fault
  | [] => ⟨scan.start, none⟩
  | byte :: rest =>
    match scan.step byte with
    | .ok next => next.run rest
    | .error fault => fault

end Scan

/-- The first fault of bytes that are not UTF-8. -/
def fault (bytes : List UInt8) : Fault := Scan.run {} bytes

/-- The bytes of a string. -/
def encode (text : String) : List UInt8 := text.toByteArray.data.toList

/-- The string that the bytes are, or their first fault. -/
def decode (bytes : List UInt8) : Except Fault String :=
  if h : (ByteArray.mk bytes.toArray).IsValidUTF8 then .ok (.ofByteArray _ h)
  else .error (fault bytes)

@[simp] theorem decode_encode (text : String) : decode (encode text) = .ok text := by
  simp [decode, encode, text.isValidUTF8]

theorem encode_of_decode {bytes : List UInt8} {text : String} (h : decode bytes = .ok text) :
    encode text = bytes := by
  unfold decode at h
  split at h
  · cases h; rfl
  · cases h

theorem length_encode (text : String) : (encode text).length = text.utf8ByteSize := rfl

end Parley.Utf8
