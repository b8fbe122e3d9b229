import Parley.Client
import Parley.Network
import Parley.Server.Connection

/-!
# Exchanges

A client and the worker that serves its connection, taken together between two requests. The
worker has answered everything that it was sent, or has ended its service.
-/

namespace Parley

/-- A client, its connection at the server, and what the handler keeps. -/
structure Exchange (σ : Type) where
  client : Client
  connection : Server.Connection
  state : σ

namespace Exchange

variable {σ : Type}

/-- A client has connected to a server. -/
def start (config serverConfig : Config) (state : σ) : Exchange σ where
  client := { max := config.maxFrameSize }
  connection := .accept serverConfig config.maxFrameSize
  state

/-- A client connects to an address where a server listens or nobody does. -/
def connect (network : Network) (listening : Bool) (config serverConfig : Config) (state : σ) :
    Except TransportError (Exchange σ) := do
  Transport.validate config
  (network.connect listening).mapError .failed
  Transport.setUp config
  return start config serverConfig state

/-- The connection with the request that the client has written, unless this is too large. -/
def write (exchange : Exchange σ) (request : Message) : Server.Connection :=
  match request.frame exchange.client.max with
  | .ok frame => exchange.connection.deliver frame
  | .error _ => exchange.connection

/-- The client sends a request and gets the response, or the connection ends in its place. A
client that gives the connection up ends it for the worker, too. -/
def send (handler : Handler σ) (exchange : Exchange σ) (request : Message) :
    Except TransportError Message × Exchange σ :=
  let client := exchange.client
  if client.connected then
    let (connection, state) := (exchange.write request).work handler exchange.state
    let (read, responses) := connection.responses.read
    let (result, client) := client.send request (fun _ => .ok ()) (read.getD (.ok none))
    let connection := { connection with responses }
    if client.connected then (result, { client, connection, state })
    else
      let (connection, state) := (connection.stop .ended).work handler state
      (result, { client, connection, state })
  else (.error .closed, exchange)

/-- Sends requests one after the other. -/
def sendAll {κ : Type} (send : κ → Message → Except TransportError Message × κ) (connection : κ) :
    List Message → List (Except TransportError Message)
  | [] => []
  | request :: requests =>
    let (result, connection) := send connection request
    result :: sendAll send connection requests

/-- The client gives the connection up, which ends it for the worker. -/
def disconnect (exchange : Exchange σ) : Except TransportError Unit × Exchange σ :=
  let (result, client) := exchange.client.disconnect (.ok ())
  (result, { exchange with client, connection := exchange.connection.stop .ended })

end Exchange

end Parley
