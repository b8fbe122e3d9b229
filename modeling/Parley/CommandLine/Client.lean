import Parley.CommandLine.Arguments
import Parley.CommandLine.Exit
import Parley.CommandLine.Number
import Parley.Config
import Parley.Message.Basic
import Parley.Network
import Parley.Transport.Error

/-!
# The client program

The program connects to a server, sends each of its values as a request with one string, and
prints the strings that come back, a line each. It stops at the first thing that goes wrong:
a send that fails or a field of a response that is no string. What was printed before stays. At
the end it gives the connection up.
-/

namespace Parley.CommandLine.Client

/-- What the program is asked to do. -/
structure Invocation where
  address : Address
  values : List String
  config : Config

def grammar : Grammar where
  options := [("max-frame-size", fun value => (intBelow? UInt32.size value).isSome)]
  positional
    | 0, value => (Address.parse? value).isSome
    | _, _ => true

/-- What the arguments ask for; at least one value is needed. -/
def Invocation.ofArguments? (arguments : Arguments) : Option Invocation := do
  let address :: values := arguments.positional | none
  if values.isEmpty then none
  let address ← Address.parse? address
  let size := arguments.options.lookup "max-frame-size" >>= intBelow? UInt32.size
  let config : Config := match size with
    | some size => { maxFrameSize := .ofNat size }
    | none => {}
  return { address, values, config }

/-- The text of the version. -/
def version : String := "courier 0.1.0\n"

/-- The text of the help. -/
def help : String := "\n".intercalate [
  "A blocking request/response messaging substrate over TCP",
  "",
  "Usage: courier_client [OPTIONS] <ADDRESS> <VALUES>...",
  "",
  "Arguments:",
  "  <ADDRESS>    Address of a running courier server",
  "  <VALUES>...  Strings to send, one request each",
  "",
  "Options:",
  "      --max-frame-size <MAX_FRAME_SIZE>",
  "          Largest accepted frame body, in bytes [default: 16777216]",
  "  -h, --help",
  "          Print help",
  "  -V, --version",
  "          Print version",
  ""]

/-- What the program printed, and whether it came to its end. -/
structure Output where
  lines : List String := []
  succeeded : Bool := true
  deriving DecidableEq, Repr

namespace Output

/-- First one output and then, if it came to its end, another. -/
def andThen (first : Output) (second : Output) : Output :=
  if first.succeeded then { second with lines := first.lines ++ second.lines } else first

/-- The printed text. -/
def text (output : Output) : String := String.join (output.lines.map (· ++ "\n"))

end Output

/-- Prints up to `n` fields of a response, the first of which must all be strings. -/
def printFields (response : Message) : Nat → Output
  | 0 => {}
  | n + 1 =>
    match response.get .string with
    | (.ok text, rest) =>
      Output.andThen { lines := [text.getD "<null>"] } (printFields rest n)
    | (.error _, _) => { succeeded := false }

/-- Prints a response. -/
def printResponse (response : Message) : Output := printFields response response.remaining

/-- The request that carries a value. -/
def request (value : String) : Message := ({} : Message).put .string (some value)

/-- Sends the values over a connection in the state `connection`, until something goes wrong, and
says what becomes of the connection. -/
def run {κ : Type} (send : κ → Message → Except TransportError Message × κ) (connection : κ) :
    List String → Output × κ
  | [] => ({}, connection)
  | value :: values =>
    match send connection (request value) with
    | (.ok response, connection) =>
      let printed := printResponse response
      if printed.succeeded then
        let (output, connection) := run send connection values
        (printed.andThen output, connection)
      else (printed, connection)
    | (.error _, connection) => ({ succeeded := false }, connection)

/-- Runs the program on its arguments. A connection that was used to the end is given up, which may
fail, too. -/
def program {κ : Type} (connect : Invocation → Except TransportError κ)
    (send : κ → Message → Except TransportError Message × κ)
    (disconnect : κ → Except TransportError Unit) (arguments : List String) : Exit :=
  match grammar.read arguments with
  | .version => { printed := version }
  | .help => { printed := help }
  | .wrong => .wrongArguments
  | .run arguments =>
    match Invocation.ofArguments? arguments with
    | none => .wrongArguments
    | some invocation =>
      match connect invocation with
      | .error _ => .failed ""
      | .ok connection =>
        let (output, connection) := run send connection invocation.values
        if output.succeeded && (disconnect connection).isOk then { printed := output.text }
        else .failed output.text

end Parley.CommandLine.Client
