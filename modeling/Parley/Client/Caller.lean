import Parley.Client
import Parley.Transport.Intake

/-!
# A client at its connection

A client that is asked to send a request writes its frame and then reads the response. When
anything goes wrong it gives the connection up, and tells what went wrong once its pump has
finished.
-/

namespace Parley

open Transport (Intake)

/-- Where a client stands. -/
inductive Asking
  | idle
  /-- It writes the frame of a request, of which these bytes are left. -/
  | writing (request : Message) (left : List UInt8)
  | awaiting (request : Message)
  /-- It gives the connection up, because of this error. -/
  | leaving (request : Message) (error : TransportError)

/-- A client in the middle of what it does. -/
structure Caller where
  client : Client
  asking : Asking := .idle
  intake : Intake
  /-- The requests that were sent, with what came of them. -/
  answered : List (Message × Except TransportError Message) := []

namespace Caller

/-- The client gives the connection up. -/
def abandon (caller : Caller) (request : Message) (error : TransportError) : Caller :=
  { caller with
    client := { caller.client with connected := false }
    asking := .leaving request error
    intake := { caller.intake with owner := .leaving } }

/-- The client has come to the end of a request. -/
def conclude (caller : Caller) (request : Message) (report : Report) : Caller :=
  match Client.responseOf report with
  | .ok response => { caller with
      asking := .idle, answered := caller.answered ++ [(request, .ok response)] }
  | .error error => caller.abandon request error

/-- The client is asked to send a request. -/
def ask (caller : Caller) (request : Message) : Option Caller :=
  match caller.asking with
  | .idle => some (
      if !caller.client.connected then
        { caller with answered := caller.answered ++ [(request, .error .closed)] }
      else match request.frame caller.client.max with
        | .error error => caller.conclude request (.error error)
        | .ok frame => { caller with asking := .writing request frame })
  | _ => none

/-- A write of the socket fails. -/
def breakOff (caller : Caller) (failure : Failure) : Option Caller :=
  match caller.asking with
  | .writing request _ => some (caller.conclude request (.error (.frame (.failed failure))))
  | _ => none

/-- The socket takes up to `n` bytes of a request. Once it has taken all of them the client
reads the response. -/
def push (caller : Caller) (n : Nat) : Option (Caller × List UInt8) :=
  match caller.asking with
  | .writing request [] => some ({ caller with
      asking := .awaiting request
      intake := { caller.intake with owner := .reading .start } }, [])
  | .writing request left =>
    if n = 0 then none
    else some ({ caller with asking := .writing request (left.drop n) }, left.take n)
  | _ => none

/-- A turn of the client at its connection. -/
def turn (caller : Caller) : Option Caller := do
  let (intake, report) ← caller.intake.ownerTurn
  let caller := { caller with intake }
  return match caller.asking, report, intake.owner with
    | .awaiting request, some report, _ => caller.conclude request report
    | .leaving request error, _, .gone => { caller with
        asking := .idle, answered := caller.answered ++ [(request, .error error)] }
    | _, _, _ => caller

/-- A client has connected. -/
def ofConfig? (config : Config) : Option Caller :=
  (Intake.ofConfig? config).map fun intake =>
    { client := { max := config.maxFrameSize }, intake }

end Caller

end Parley
