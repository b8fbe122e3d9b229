import Parley.Transport.Receiver

/-!
# Clients

A client sends one request at a time over its connection and waits for the response. A send
that fails in any way gives the connection up for good; after that, and after a disconnect,
every send says that the connection is closed and touches nothing.

**Reports.** A clean end in place of the response, and every error that means a
torn-down connection, is reported as `closed`. All other errors are reported as they are.
-/

namespace Parley

/-- A client: the settings that matter to it, and whether it still has its connection. -/
structure Client where
  /-- The largest body sent or accepted. -/
  max : UInt32
  connected : Bool := true
  deriving DecidableEq, Repr

namespace Client

/-- What a send reports when writing and reading came to `result`. -/
def responseOf : Report → Except TransportError Message
  | .ok (some response) => .ok response
  | .ok none => .error .closed
  | .error error => if error.isDisconnect then .error .closed else .error error

/-- Sends a request. `write` is what becomes of writing a frame to the connection and `read`
what the connection then brings. -/
def send (client : Client) (request : Message) (write : List UInt8 → Except Failure Unit)
    (read : Report) :
    Except TransportError Message × Client :=
  if !client.connected then (.error .closed, client)
  else
    let result := do
      let frame ← request.frame client.max
      (write frame).mapError fun failure => .frame (.failed failure)
      read
    match responseOf result with
    | .ok response => (.ok response, client)
    | .error error => (.error error, { client with connected := false })

/-- Gives the connection up, whatever becomes of shutting it down. -/
def disconnect (client : Client) (shutDown : Except Failure Unit) :
    Except TransportError Unit × Client :=
  if client.connected then (shutDown.mapError .failed, { client with connected := false })
  else (.ok (), client)

/-- A handle that can close the connection from elsewhere, as long as there is one. -/
def closer (client : Client) : Except TransportError Unit :=
  if client.connected then .ok () else .error .closed

end Client

end Parley
