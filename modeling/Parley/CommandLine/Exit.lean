/-!
# How a program ends

A program ends with a code and what it printed: zero for success, one for anything that went
wrong while it ran, and two for wrong arguments.
-/

namespace Parley.CommandLine

/-- The end of a program. -/
structure Exit where
  code : UInt8 := 0
  printed : String := ""
  deriving DecidableEq, Repr

/-- The arguments are wrong. -/
def Exit.wrongArguments : Exit := { code := 2 }

/-- Something went wrong after these lines were printed. -/
def Exit.failed (printed : String) : Exit := { code := 1, printed }

end Parley.CommandLine
