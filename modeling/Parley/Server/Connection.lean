import Parley.Server.Service
import Parley.Transport.Setup

/-!
# A connection at its server

A server gives each connection that it accepts a worker. The connection ends with the worker's
service: what was sent before reaches the other end, and then the end of the stream does.
-/

namespace Parley.Server

/-- A connection and how far its worker has come. -/
structure Connection where
  /-- What the worker is sent. -/
  requests : Receiver
  /-- What the other end is sent. -/
  responses : Receiver
  status : ServiceStatus := .waiting

namespace Connection

/-- The server accepts a connection from an end that takes bodies of up to `max` bytes. One
whose socket refuses the settings is dropped at once. -/
def accept (config : Config) (max : UInt32) : Connection :=
  let requests : Receiver := { max := config.maxFrameSize }
  match Transport.setUp config with
  | .ok () => { requests, responses := { max } }
  | .error error =>
    { requests, responses := { max, ending := some .ended }, status := .dropped error }

/-- The worker is still at its service. -/
def isActive (connection : Connection) : Bool := connection.status = .waiting

/-- The other end sends bytes. -/
def deliver (connection : Connection) (bytes : List UInt8) : Connection :=
  { connection with requests := connection.requests.deliver bytes }

/-- What the worker is sent stops. -/
def stop (connection : Connection) (ending : Ending) : Connection :=
  { connection with requests := connection.requests.stop ending }

/-- The worker goes as far as it can. -/
def work {σ : Type} (handler : Handler σ) (state : σ) (connection : Connection) :
    Connection × σ :=
  if connection.isActive then
    let service := serve handler state connection.requests
    let responses := connection.responses.deliver service.sent
    let connection := {
      requests := service.receiver
      responses := if service.status = .waiting then responses else responses.stop .ended
      status := service.status }
    (connection, service.state)
  else (connection, state)

/-- The warning about a connection that was dropped. -/
def warning? (connection : Connection) (id : Nat) : Option String :=
  match connection.status with
  | .dropped error => some s!"connection {id} dropped: {error.message}"
  | _ => none

end Connection

end Parley.Server
