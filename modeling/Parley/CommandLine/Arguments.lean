/-!
# Program arguments

Arguments are read from left to right. An argument with two dashes is an option, whose value
follows an equals sign or is the next argument; the version and the help are asked for by
flags. Two dashes alone end the options. Everything else is a positional argument, a single
dash included.

The first fault or flag decides: a value that is refused in front of a flag is a fault, and
one behind it is never looked at.
-/

namespace Parley.CommandLine

/-- The arguments that a program takes. -/
structure Grammar where
  /-- The options, without their dashes, and the values each accepts. -/
  options : List (String × (String → Bool))
  /-- The values that a positional argument accepts, by its place. -/
  positional : Nat → String → Bool

/-- Arguments that were read. -/
structure Arguments where
  options : List (String × String) := []
  positional : List String := []

/-- What arguments ask for. -/
inductive Request
  | run (arguments : Arguments)
  | version
  | help
  | wrong

namespace Grammar

/-- Adds the value of an option, which must not have one yet. -/
def addOption (grammar : Grammar) (read : Arguments) (name value : String) :
    Option Arguments :=
  match grammar.options.lookup name with
  | none => none
  | some accepts =>
    if accepts value && !(read.options.lookup name).isSome then
      some { read with options := read.options ++ [(name, value)] }
    else none

/-- Adds a positional argument. -/
def addPositional (grammar : Grammar) (read : Arguments) (value : String) :
    Option Arguments :=
  if grammar.positional read.positional.length value then
    some { read with positional := read.positional ++ [value] }
  else none

/-- The positional arguments behind the end of the options. -/
def readPositional (grammar : Grammar) (read : Arguments) (rest : List String) : Request :=
  match rest.foldlM grammar.addPositional read with
  | some read => .run read
  | none => .wrong

/-- A text that stands where an option or flag could. -/
def looksLikeOption (text : String) : Bool := text.startsWith "-" && text != "-"

/-- An option with its value behind an equals sign. -/
def assignment? (text : String) : Option (String × String) :=
  match text.toList.span (· != '=') with
  | (name, _ :: value) => some (.ofList name, .ofList value)
  | (_, []) => none

/-- What an argument is by itself. -/
inductive Word
  | endOfOptions
  | version
  | help
  /-- An option with its value. -/
  | assigned (name value : String)
  /-- An option whose value is the next argument. -/
  | named (name : String)
  /-- A flag that there is not. -/
  | unknown
  | positional
  deriving DecidableEq, Repr

def Word.ofArgument (argument : String) : Word :=
  if argument = "--" then endOfOptions
  else if argument = "--version" ∨ argument.startsWith "-V" then version
  else if argument = "--help" ∨ argument.startsWith "-h" then help
  else if argument.startsWith "--" then
    let text := (argument.drop 2).toString
    match assignment? text with
    | some (name, value) => assigned name value
    | none => named text
  else if looksLikeOption argument then unknown
  else positional

/-- Reads arguments behind the ones already read. -/
def readAfter (grammar : Grammar) (read : Arguments) : List String → Request
  | [] => .run read
  | argument :: rest =>
    match Word.ofArgument argument with
    | .endOfOptions => grammar.readPositional read rest
    | .version => .version
    | .help => .help
    | .assigned name value =>
      match grammar.addOption read name value with
      | some read => grammar.readAfter read rest
      | none => .wrong
    | .named name =>
      match rest with
      | [] => .wrong
      | value :: rest =>
        match if looksLikeOption value then none else grammar.addOption read name value with
        | some read => grammar.readAfter read rest
        | none => .wrong
    | .unknown => .wrong
    | .positional =>
      match grammar.addPositional read argument with
      | some read => grammar.readAfter read rest
      | none => .wrong

/-- Reads all arguments. -/
def read (grammar : Grammar) (arguments : List String) : Request :=
  grammar.readAfter {} arguments

end Grammar

end Parley.CommandLine
