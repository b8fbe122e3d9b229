/-!
# Wires

A wire carries bytes in one direction of a connection, in order and without loss. It holds a
bounded number of bytes between the socket that sends and the one that receives. Either socket
may be shut down: the sender's ends the stream behind what is held, and the receiver's takes
no more, though what is held can still be read.
-/

namespace Parley

/-- One direction of a connection. -/
structure Wire where
  capacity : Nat
  /-- The bytes on their way, first sent first. -/
  held : List UInt8 := []
  /-- The sending socket is shut down. -/
  ended : Bool := false
  /-- The receiving socket is shut down. -/
  cut : Bool := false
  deriving DecidableEq, Repr

namespace Wire

/-- Bytes can still be sent. -/
def isOpen (wire : Wire) : Bool := !wire.ended && !wire.cut

/-- How many bytes there is room for. -/
def room (wire : Wire) : Nat := wire.capacity - wire.held.length

/-- Sends bytes for which there is room. -/
def send (wire : Wire) (bytes : List UInt8) : Option Wire :=
  if wire.isOpen && bytes.length ≤ wire.room then
    some { wire with held := wire.held ++ bytes }
  else none

/-- What a read of up to `n` bytes brings, no bytes at the end of the stream. There is nothing
as long as bytes may still be sent. -/
def receive (wire : Wire) (n : Nat) : Option (List UInt8 × Wire) :=
  if wire.held.isEmpty then if wire.isOpen then none else some ([], wire)
  else some (wire.held.take n, { wire with held := wire.held.drop n })

end Wire

end Parley
