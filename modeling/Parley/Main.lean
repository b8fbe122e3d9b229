import Parley.CommandLine.Client
import Parley.CommandLine.Server
import Parley.Exchange

/-!
# The command line

The first argument names the program, `client` or `server`, and the others are the program's.
The host lends its programs no sockets: listening needs none, but no connection is ever made,
so a client fails once its arguments are read, and a server waits for its input to end.
-/

namespace Parley.CommandLine

/-- The network of a host without sockets. -/
def host : Network := { carries := false }

/-- Runs a program until it has to wait; without an end it waits. -/
def start : List String → Option Exit
  | "client" :: arguments =>
    some (Client.program (fun invocation => Exchange.connect host true invocation.config {} ())
      (Exchange.send Handler.echo) (fun exchange => exchange.disconnect.1) arguments)
  | "server" :: arguments =>
    match Server.program (fun invocation => do
      Transport.validate invocation.config
      (Network.listen invocation.address false).mapError .failed) arguments with
    | .error exit => some exit
    | .ok _ => none
  | _ => some .wrongArguments

/-- Waits for the end of the input. -/
partial def awaitEnd (input : IO.FS.Stream) : IO Unit := do
  unless (← input.getLine).isEmpty do awaitEnd input

end Parley.CommandLine

open Parley.CommandLine

def main (arguments : List String) : IO UInt32 := do
  match start arguments with
  | some exit =>
    IO.print exit.printed
    return exit.code.toUInt32
  | none =>
    awaitEnd (← IO.getStdin)
    return 0
