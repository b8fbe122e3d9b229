import Parley.Message.Codec
import Parley.Transport.Error

/-!
# Receiving messages

What a connection brings is a stream of bytes that at some point stops: with its end, or with
a failed read. A `Receiver` holds the bytes that no message has been read from yet and how
the stream has stopped, if it has.

**Order.** Every complete frame received before a failure is read before it. The failure then
takes the place of the first end, be it clean or inside a frame, and is reported once; after
it the stream is at its end.

**Recovery.** A body that is no message is used up like any other, and the next read goes on
behind it. A header that announces too large a body is used up alone.
-/

namespace Parley

/-- How a stream stopped. -/
inductive Ending
  | ended
  /-- A read failed, and nobody has been told. -/
  | failed (failure : Failure)
  deriving DecidableEq, Repr

/-- What a read of a message comes to; without a message it is a clean end. -/
abbrev Report := Except TransportError (Option Message)

/-- The report on a frame with this body. -/
def Report.ofBody (body : List UInt8) : Report :=
  (Message.decode body).map some |>.mapError .malformed

/-- The receiving side of a connection. -/
structure Receiver where
  /-- The largest body accepted. -/
  max : UInt32
  /-- What was received and not yet read. -/
  pending : List UInt8 := []
  /-- How the stream stopped, if it has. -/
  ending : Option Ending := none
  deriving DecidableEq

namespace Receiver

/-- More bytes come; none come once the stream has stopped. -/
def deliver (receiver : Receiver) (bytes : List UInt8) : Receiver :=
  match receiver.ending with
  | none => { receiver with pending := receiver.pending ++ bytes }
  | some _ => receiver

/-- The stream stops, unless it has already. -/
def stop (receiver : Receiver) (ending : Ending) : Receiver :=
  { receiver with ending := receiver.ending <|> some ending }

/-- A read of the stream brought bytes, its end as no bytes, or a failure. An interrupted read
changes nothing. -/
def arrive (receiver : Receiver) : Except Failure (List UInt8) → Receiver
  | .ok bytes => if bytes.isEmpty then receiver.stop .ended else receiver.deliver bytes
  | .error failure =>
    if failure.kind = .interrupted then receiver else receiver.stop (.failed failure)

/-- The end of the stream is reached with the given report, if the stream has stopped. -/
def atEnd (receiver : Receiver) (report : Report) : Option Report × Receiver :=
  match receiver.ending with
  | none => (none, receiver)
  | some .ended => (some report, { receiver with pending := [] })
  | some (.failed failure) =>
    (some (.error (.failed failure)), { receiver with pending := [], ending := some .ended })

/-- Reads the next message. There is no report as long as the message may still be on its
way. -/
def read (receiver : Receiver) : Option Report × Receiver :=
  match Frame.parse receiver.max receiver.pending with
  | (.body body, pending) => (some (.ofBody body), { receiver with pending })
  | (.ended, _) => receiver.atEnd (.ok none)
  | (.error error, pending) =>
    match error with
    | .truncated .. => receiver.atEnd (.error (.frame error))
    | _ => (some (.error (.frame error)), { receiver with pending })

theorem eq_of_atEnd {receiver rest : Receiver} {report : Report} {message : Message}
    (h : receiver.atEnd report = (some (.ok (some message)), rest)) :
    report = .ok (some message) := by
  unfold atEnd at h
  split at h
  · cases h
  · exact Option.some.inj (congrArg Prod.fst h)
  · cases h

theorem length_pending_lt {receiver rest : Receiver} {message : Message}
    (h : receiver.read = (some (.ok (some message)), rest)) :
    rest.pending.length < receiver.pending.length := by
  unfold read at h
  split at h
  · next heq =>
    obtain rfl := congrArg Prod.snd h
    exact Frame.length_lt_of_parse heq
  · cases eq_of_atEnd h
  · split at h
    · cases eq_of_atEnd h
    · cases h

/-- The reports of up to `n` reads, as far as they can be made. -/
def reads (receiver : Receiver) : Nat → List Report
  | 0 => []
  | n + 1 =>
    match receiver.read with
    | (some report, rest) => report :: rest.reads n
    | (none, _) => []

end Receiver

/-- The frame of a message within the limit. -/
def Message.frame (max : UInt32) (message : Message) : Except TransportError (List UInt8) :=
  (Frame.make max message.encode).mapError .frame

end Parley
