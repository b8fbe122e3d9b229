/-!
# Failed input and output

An operation on a byte stream fails with a kind and a text. A bare failure has the text of its
kind, a custom one brings its own, and one that the operating system reported brings its
number and wording.
-/

namespace Parley

/-- What sort of failure an input or output operation met. -/
inductive FailureKind
  | notFound
  | permissionDenied
  | connectionRefused
  | connectionReset
  | connectionAborted
  | networkUnreachable
  | notConnected
  | addrInUse
  | addrNotAvailable
  | brokenPipe
  | alreadyExists
  | wouldBlock
  | invalidInput
  | invalidData
  | timedOut
  | writeZero
  | interrupted
  | unsupported
  | unexpectedEof
  | outOfMemory
  | other
  deriving DecidableEq, Repr

namespace FailureKind

/-- The text of a failure that says no more than its kind. -/
def text : FailureKind → String
  | notFound => "entity not found"
  | permissionDenied => "permission denied"
  | connectionRefused => "connection refused"
  | connectionReset => "connection reset"
  | connectionAborted => "connection aborted"
  | networkUnreachable => "network unreachable"
  | notConnected => "not connected"
  | addrInUse => "address in use"
  | addrNotAvailable => "address not available"
  | brokenPipe => "broken pipe"
  | alreadyExists => "entity already exists"
  | wouldBlock => "operation would block"
  | invalidInput => "invalid input parameter"
  | invalidData => "invalid data"
  | timedOut => "timed out"
  | writeZero => "write zero"
  | interrupted => "operation interrupted"
  | unsupported => "unsupported"
  | unexpectedEof => "unexpected end of file"
  | outOfMemory => "out of memory"
  | other => "other error"

/-- The kinds that mean that a connection was torn down, by the peer or on this side. -/
def isDisconnect : FailureKind → Bool
  | brokenPipe | connectionReset | connectionAborted | notConnected | unexpectedEof => true
  | _ => false

end FailureKind

/-- Who words a failure. -/
inductive FailureCause
  /-- Nobody: the text is the kind's. -/
  | bare
  /-- The operation that failed. -/
  | custom (text : String)
  /-- The operating system, which also numbers it. -/
  | system (code : Nat) (wording : String)
  deriving DecidableEq, Repr

/-- A failed input or output operation. -/
structure Failure where
  kind : FailureKind
  cause : FailureCause := .bare
  deriving DecidableEq, Repr

namespace Failure

def message (failure : Failure) : String :=
  match failure.cause with
  | .bare => failure.kind.text
  | .custom text => text
  | .system code wording => s!"{wording} (os error {code})"

/-- No route leads to the address. -/
def noRoute : Failure := ⟨.networkUnreachable, .system 101 "Network is unreachable"⟩

/-- Nobody listens at the address. -/
def refused : Failure := ⟨.connectionRefused, .system 111 "Connection refused"⟩

/-- Somebody listens at the address already. -/
def addressInUse : Failure := ⟨.addrInUse, .system 98 "Address already in use"⟩

/-- The address is not one of this host. -/
def addressNotAvailable : Failure :=
  ⟨.addrNotAvailable, .system 99 "Cannot assign requested address"⟩

/-- A read took longer than its timeout. -/
def readTimedOut : Failure := ⟨.wouldBlock, .system 11 "Resource temporarily unavailable"⟩

/-- The other end of a connection threw away what it was sent. -/
def reset : Failure := ⟨.connectionReset, .system 104 "Connection reset by peer"⟩

/-- A write met a stream that takes no more bytes. -/
def brokenPipe : Failure := ⟨.brokenPipe, .system 32 "Broken pipe"⟩

/-- A timeout of no time at all. -/
def zeroTimeout : Failure := ⟨.invalidInput, .custom "cannot set a 0 duration timeout"⟩

/-- A sink that takes no byte of a write. -/
def nothingWritten : Failure := ⟨.writeZero, .custom "failed to write whole buffer"⟩

end Failure

end Parley
