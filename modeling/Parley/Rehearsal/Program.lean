import Parley.CommandLine.Client
import Parley.CommandLine.Server
import Parley.Exchange

/-!
# Rehearsing the programs

The client program runs against a server that listens at an address, and the server program is
sent requests by a client and then interrupted.
-/

namespace Parley.Rehearsal.Program

/-- Runs the client program while a server with the usual settings listens at `server`. -/
def client {σ : Type} (network : Network) (server : Address) (handler : Handler σ) (state : σ)
    (arguments : List String) : CommandLine.Exit :=
  CommandLine.Client.program
    (fun invocation =>
      Exchange.connect network (invocation.address = server) invocation.config {} state)
    (Exchange.send handler) (fun exchange => exchange.disconnect.1) arguments

/-- Runs the server program, and if it listens has a client with the usual settings send it
requests. A client that cannot connect is the only answer. -/
def server (network : Network) (arguments : List String) (requests : List Message) :
    Except CommandLine.Exit (List (Except TransportError Message)) := do
  let invocation ← CommandLine.Server.program (fun invocation => do
    Transport.validate invocation.config
    (Network.listen invocation.address false).mapError .failed) arguments
  match Exchange.connect network true {} invocation.config () with
  | .error error => return [.error error]
  | .ok exchange => return Exchange.sendAll (Exchange.send .echo) exchange requests

end Parley.Rehearsal.Program
