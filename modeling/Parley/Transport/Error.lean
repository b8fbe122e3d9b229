import Parley.Config
import Parley.Frame.Basic
import Parley.Message.Basic

/-!
# Errors of a connection

What can go wrong while messages are exchanged over a connection. Each layer's errors are
kept and named in front of their text.
-/

namespace Parley

/-- Why a connection cannot be made or used. -/
inductive TransportError
  | failed (failure : Failure)
  | frame (error : FrameError)
  | malformed (error : MessageError)
  | config (error : ConfigError)
  /-- The handler refused a request, in these words. -/
  | handler (text : String)
  | closed
  deriving DecidableEq, Repr

namespace TransportError

def message : TransportError → String
  | failed failure => "transport IO error: " ++ failure.message
  | frame error => "framing error: " ++ error.message
  | malformed error => "malformed message: " ++ error.message
  | config error => "invalid configuration: " ++ error.message
  | handler text => "handler failed: " ++ text
  | closed => "connection closed"

/-- Whether the error means that the connection was torn down, by the peer or on this side. -/
def isDisconnect : TransportError → Bool
  | closed => true
  | failed failure | frame (.failed failure) => failure.kind.isDisconnect
  | _ => false

end TransportError

end Parley
