import Parley.BigEndian
import Parley.Failure

/-!
# Frames

A frame is a body behind a four-byte header that counts its bytes. A stream is cut into
frames at the headers from its first byte on; a reader and a writer each refuse a body
longer than their limit.

**Cutting a stream** (`parse`). The stream may have ended, may break off inside a header or
a body, may announce a body over the limit, or starts with a whole frame. A refused header is
used up and its body is not.
-/

namespace Parley

/-- Why a frame cannot be read or written. -/
inductive FrameError
  /-- A body of `size` bytes, over the limit. -/
  | tooLarge (size : Nat) (max : UInt32)
  /-- The stream ended `read` bytes into a header or body of `expected` bytes. -/
  | truncated (read expected : Nat)
  | failed (failure : Failure)
  deriving DecidableEq, Repr

def FrameError.message : FrameError → String
  | tooLarge size max => s!"frame of {size} bytes exceeds the {max} byte limit"
  | truncated read expected => s!"stream ended after {read} of {expected} bytes"
  | failed failure => "frame IO error: " ++ failure.message

namespace Frame

/-- Bytes of the header. -/
def headerSize : Nat := 4

/-- The bytes of a frame. -/
def encode (body : List UInt8) : List UInt8 := bigEndian headerSize body.length ++ body

/-- The frame of a body within the limit. -/
def make (max : UInt32) (body : List UInt8) : Except FrameError (List UInt8) :=
  if max.toNat < body.length then .error (.tooLarge body.length max) else .ok (encode body)

theorem make_of_le {max : UInt32} {body : List UInt8} (h : body.length ≤ max.toNat) :
    make max body = .ok (encode body) :=
  if_neg (Nat.not_lt.mpr h)

theorem make_of_lt {max : UInt32} {body : List UInt8} (h : max.toNat < body.length) :
    make max body = .error (.tooLarge body.length max) :=
  if_pos h

/-- What reading the next frame of a stream comes to. -/
inductive Outcome
  | body (bytes : List UInt8)
  /-- The stream ended before the frame. -/
  | ended
  | error (error : FrameError)
  deriving DecidableEq, Repr

/-- The next frame of a whole stream, and what follows the bytes used. -/
def parse (max : UInt32) (stream : List UInt8) : Outcome × List UInt8 :=
  if stream.isEmpty then (.ended, [])
  else if stream.length < headerSize then (.error (.truncated stream.length headerSize), [])
  else
    let size := ofBigEndian (stream.take headerSize)
    let rest := stream.drop headerSize
    if max.toNat < size then (.error (.tooLarge size max), rest)
    else if rest.length < size then (.error (.truncated rest.length size), [])
    else (.body (rest.take size), rest.drop size)

theorem length_lt_of_parse {max : UInt32} {stream body rest : List UInt8}
    (h : parse max stream = (.body body, rest)) : rest.length < stream.length := by
  unfold parse at h
  split at h
  · cases h
  · split at h
    · cases h
    · dsimp only at h
      split at h
      · cases h
      · split at h
        · cases h
        · next hshort _ _ =>
          cases h
          simp only [headerSize, List.length_drop] at hshort ⊢
          omega

end Frame

end Parley
