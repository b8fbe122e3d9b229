import Parley.CommandLine.Arguments
import Parley.CommandLine.Exit
import Parley.CommandLine.Number
import Parley.Config
import Parley.Network
import Parley.Transport.Error

/-!
# The server program

The program listens at an address and sends every request back until it is interrupted.
-/

namespace Parley.CommandLine.Server

/-- What the program is asked to do. -/
structure Invocation where
  address : Address
  config : Config

def grammar : Grammar where
  options := [
    ("buffer-capacity", fun value => (natBelow? UInt64.size value).isSome),
    ("max-frame-size", fun value => (intBelow? UInt32.size value).isSome),
    ("read-timeout-ms", fun value => (natBelow? UInt64.size value).isSome)]
  positional
    | 0, value => (Address.parse? value).isSome
    | _, _ => false

/-- What the arguments ask for. -/
def Invocation.ofArguments? (arguments : Arguments) : Option Invocation := do
  let address ← Address.parse? (← arguments.positional.head?)
  let standard : Config := {}
  let option (name : String) (read : String → Option Nat) : Option Nat :=
    arguments.options.lookup name >>= read
  let config : Config := {
    bufferCapacity := (option "buffer-capacity" (natBelow? UInt64.size)).getD
      standard.bufferCapacity
    maxFrameSize := ((option "max-frame-size" (intBelow? UInt32.size)).map UInt32.ofNat).getD
      standard.maxFrameSize
    readTimeout := option "read-timeout-ms" (natBelow? UInt64.size) }
  return { address, config }

/-- The text of the version. -/
def version : String := "courier 0.1.0\n"

/-- The text of the help. -/
def help : String := "\n".intercalate [
  "A blocking request/response messaging substrate over TCP",
  "",
  "Usage: courier_server [OPTIONS] <ADDRESS>",
  "",
  "Arguments:",
  "  <ADDRESS>  Listen for new connections at address",
  "",
  "Options:",
  "      --buffer-capacity <BUFFER_CAPACITY>",
  "          Bytes buffered per connection between the socket and the decoder [default: 65536]",
  "      --max-frame-size <MAX_FRAME_SIZE>",
  "          Largest accepted frame body, in bytes [default: 16777216]",
  "      --read-timeout-ms <READ_TIMEOUT_MS>",
  "          Drop connections idle for this many milliseconds",
  "  -h, --help",
  "          Print help",
  "  -V, --version",
  "          Print version",
  ""]

/-- Runs the program on its arguments until it listens, or to its end if it comes before. -/
def program (listen : Invocation → Except TransportError Unit) (arguments : List String) :
    Except Exit Invocation :=
  match grammar.read arguments with
  | .version => .error { printed := version }
  | .help => .error { printed := help }
  | .wrong => .error .wrongArguments
  | .run arguments =>
    match Invocation.ofArguments? arguments with
    | none => .error .wrongArguments
    | some invocation =>
      match listen invocation with
      | .error _ => .error (.failed "")
      | .ok () => .ok invocation

end Parley.CommandLine.Server
