import Parley.Handler
import Parley.Transport.Receiver

/-!
# Serving one connection

A worker reads requests off its connection, hands each to the handler and sends the response
back before it reads the next. It stops at the first thing that goes wrong, or at a clean end
between requests, and sends nothing for the request at which it stopped.
-/

namespace Parley

/-- How far the service of a connection has come. -/
inductive ServiceStatus
  /-- The next request may still be on its way. -/
  | waiting
  /-- The connection ended between requests. -/
  | closed
  | dropped (error : TransportError)
  /-- The handler crashed. -/
  | crashed
  deriving DecidableEq, Repr

/-- What a worker did on a connection, and where it stands. -/
structure Service (σ : Type) where
  /-- The bytes of all responses. -/
  sent : List UInt8 := []
  /-- The requests handed to the handler, with its replies. -/
  handled : List (Message × Reply) := []
  state : σ
  receiver : Receiver
  status : ServiceStatus

namespace Service

variable {σ : Type}

/-- Puts a request that was answered in front. -/
def precede (request response : Message) (frame : List UInt8) (service : Service σ) :
    Service σ :=
  { service with
    sent := frame ++ service.sent
    handled := (request, .response response) :: service.handled }

end Service

/-- Serves what has been received. -/
def serve {σ : Type} (handler : Handler σ) (state : σ) (receiver : Receiver) : Service σ :=
  match _h : receiver.read with
  | (none, receiver) => { state, receiver, status := .waiting }
  | (some (.error error), receiver) => { state, receiver, status := .dropped error }
  | (some (.ok none), receiver) => { state, receiver, status := .closed }
  | (some (.ok (some request)), receiver) =>
    let (reply, state) := handler state request
    let stopped (status : ServiceStatus) : Service σ :=
      { handled := [(request, reply)], state, receiver, status }
    match reply with
    | .refusal text => stopped (.dropped (.handler text))
    | .crash => stopped .crashed
    | .response response =>
      match response.frame receiver.max with
      | .error error => stopped (.dropped error)
      | .ok frame => (serve handler state receiver).precede request response frame
termination_by receiver.pending.length
decreasing_by exact Receiver.length_pending_lt _h

end Parley
