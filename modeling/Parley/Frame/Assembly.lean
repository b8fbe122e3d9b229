import Parley.Frame.Basic

/-!
# Putting a frame together

Bytes come from a source in pieces. An `Assembly` is a frame of which some bytes are still to
come: it says how many it needs next (`demand`), and each piece, the end of the source or a
failure takes it one step on (`receive`). An interrupted read changes nothing.

An assembly that is not complete needs at least one byte, so the source is never asked for
none; a body of no bytes is complete as soon as its header is.
-/

namespace Parley.Frame

/-- A frame of which some bytes are still to come. -/
inductive Assembly
  | header (got : Array UInt8) (short : got.size < headerSize)
  | body (size : Nat) (got : Array UInt8) (short : got.size < size)

/-- An assembly one step on. -/
inductive Advance
  | more (assembly : Assembly)
  | done (outcome : Outcome)

namespace Assembly

/-- No byte has come yet. -/
def start : Assembly := .header #[] (by decide)

/-- How many bytes the current part still needs. -/
def demand : Assembly → Nat
  | header got _ => headerSize - got.size
  | body size got _ => size - got.size

theorem demand_pos (assembly : Assembly) : 0 < assembly.demand := by
  cases assembly <;> simp only [demand] <;> omega

/-- The header is complete. -/
def announce (max : UInt32) (size : Nat) : Advance :=
  if max.toNat < size then .done (.error (.tooLarge size max))
  else if h : 0 < size then .more (.body size #[] h)
  else .done (.body [])

/-- Takes what a read brought: a piece of no more bytes than demanded, the end of the source
as an empty piece, or a failure. -/
def receive (max : UInt32) (assembly : Assembly) : Except Failure (List UInt8) → Advance
  | .error failure =>
    if failure.kind = .interrupted then .more assembly
    else .done (.error (.failed failure))
  | .ok [] =>
    match assembly with
    | header got _ =>
      if got.isEmpty then .done .ended else .done (.error (.truncated got.size headerSize))
    | body size got _ => .done (.error (.truncated got.size size))
  | .ok (byte :: more) =>
    match assembly with
    | header got _ =>
      let got := got ++ (byte :: more)
      if h : got.size < headerSize then .more (.header got h)
      else announce max (ofBigEndian got.toList)
    | body size got _ =>
      let got := got ++ (byte :: more)
      if h : got.size < size then .more (.body size got h) else .done (.body got.toList)

theorem receive_nil (max : UInt32) (assembly : Assembly) :
    ∃ outcome, assembly.receive max (.ok []) = .done outcome := by
  cases assembly with
  | header got short =>
    simp only [receive]
    split
    · exact ⟨_, rfl⟩
    · exact ⟨_, rfl⟩
  | body size got short => exact ⟨_, rfl⟩

end Assembly

end Parley.Frame
