/-!
# Floating-point numbers by their bits

A binary32 or binary64 number as its sign, exponent and fraction bits. Messages carry the
bits untouched, so the payload of a NaN and the sign of a zero survive; `numEq` compares as
numbers, where a NaN differs from everything and the two zeros are equal.
-/

namespace Parley

/-- A binary32 number. -/
structure Binary32 where
  bits : UInt32
  deriving DecidableEq, Repr, Inhabited

/-- A binary64 number. -/
structure Binary64 where
  bits : UInt64
  deriving DecidableEq, Repr, Inhabited

namespace Binary32

/-- The bits without the sign. -/
def magnitude (x : Binary32) : UInt32 := x.bits &&& 0x7fffffff

def isNaN (x : Binary32) : Bool := x.magnitude > 0x7f800000

def isZero (x : Binary32) : Bool := x.magnitude == 0

/-- Equality of numbers. -/
def numEq (x y : Binary32) : Bool :=
  !x.isNaN && !y.isNaN && (x.bits == y.bits || x.isZero && y.isZero)

end Binary32

namespace Binary64

/-- The bits without the sign. -/
def magnitude (x : Binary64) : UInt64 := x.bits &&& 0x7fffffffffffffff

def isNaN (x : Binary64) : Bool := x.magnitude > 0x7ff0000000000000

def isZero (x : Binary64) : Bool := x.magnitude == 0

/-- Equality of numbers. -/
def numEq (x y : Binary64) : Bool :=
  !x.isNaN && !y.isNaN && (x.bits == y.bits || x.isZero && y.isZero)

end Binary64

end Parley
