import Parley.Frame.Basic
import Parley.Transport.Receiver

/-!
# Rehearsals

A rehearsal works through a script of steps with both ends of its connections in one hand. It
is carried out in the order of the script: a step ends when nothing more follows from it, and
time passes only when a step would have to wait otherwise.

This module has what a step can come to.
-/

namespace Parley.Rehearsal

/-- What a step came to. -/
inductive Answer
  | ok
  | truth (value : Bool)
  /-- Whether a number of connections was reached. -/
  | reached (value : Bool)
  | text (text : String)
  /-- The body of a frame that the other end got. -/
  | frame (body : List UInt8)
  /-- The other end got the end of the connection. -/
  | closed
  | message (message : Message)
  /-- The end of the connection in place of a message. -/
  | ended
  | error (error : TransportError)

/-- The answer that a result without a value is. -/
def Answer.ofUnit : Except TransportError Unit → Answer
  | .ok () => .ok
  | .error e => .error e

/-- The answer that a response is. -/
def Answer.ofMessage : Except TransportError Message → Answer
  | .ok response => .message response
  | .error e => .error e

/-- The answer that a read is. -/
def Answer.ofRead : Report → Answer
  | .ok (some response) => .message response
  | .ok none => .ended
  | .error e => .error e

/-- Why a step cannot be carried out. -/
inductive Fault
  | noConnection
  | noClient
  | noServer
  | noTransport
  | noCloser
  /-- It would wait for something that never comes. -/
  | endless
  deriving DecidableEq, Repr

def Fault.message : Fault → String
  | noConnection => "no connection"
  | noClient => "no client"
  | noServer => "no server"
  | noTransport => "no transport"
  | noCloser => "no closer"
  | endless => "would wait for ever"

/-- The limit of an end that has none of its own. -/
def unlimited : UInt32 := 0xffffffff

/-- The next frame of what an end was sent, or the end of it, if it has come. -/
def takeFrame (bytes : List UInt8) (ended : Bool) : Except Fault (Answer × List UInt8) :=
  match Frame.parse unlimited bytes with
  | (.body body, rest) => .ok (.frame body, rest)
  | _ => if ended then .ok (.closed, []) else .error .endless

end Parley.Rehearsal
