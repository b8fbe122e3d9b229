import Parley.Proofs.Message.Codec
import Parley.Proofs.Transport.Tracks

/-!
# Messages on their way

A peer sends messages as frames, one after the other. Some of the bytes have been received and
not yet read, others are on their way or have still to be sent. `Expects` says what all of them
come to, and that this connection has received the first of them.

**Theorem (`Intake.Expects.told`).** The first message that the owner is told is the first one
that was on its way, with all its fields and none of them read, and the other messages are
still to come. The turns in between change nothing.
-/

namespace Parley

open Parley.Frame (Outcome Cut)

/-- Messages as they are sent, frame after frame. -/
def frames (messages : List Message) : List UInt8 :=
  messages.flatMap fun message => Frame.encode message.encode

@[simp] theorem frames_nil : frames [] = [] := rfl

@[simp] theorem frames_cons (message : Message) (messages : List Message) :
    frames (message :: messages) = Frame.encode message.encode ++ frames messages :=
  List.flatMap_cons

@[simp] theorem frames_append (messages more : List Message) :
    frames (messages ++ more) = frames messages ++ frames more :=
  List.flatMap_append

theorem Receiver.cut_of_read {receiver rest : Receiver} {message : Message}
    (h : receiver.read = (some (.ok (some message)), rest)) :
    ∃ body, Cut receiver.max receiver.pending (.body body) rest.pending ∧
      Message.decode body = .ok message := by
  obtain ⟨max, pending, ending⟩ := receiver
  obtain ⟨outcome, left, hcut⟩ := Frame.exists_cut max pending
  by_cases hend : outcome.IsEnd
  · rw [read_of_cut_end hcut hend] at h
    have hreport := eq_of_atEnd h
    cases outcome with
    | body => cases hend
    | ended | error => cases hreport
  · rw [read_of_cut hcut hend] at h
    cases outcome with
    | ended => exact absurd trivial hend
    | error => cases h
    | body body =>
      simp only [Prod.mk.injEq, Option.some.injEq, Report.ofOutcome, Report.ofBody] at h
      obtain ⟨hbody, rfl⟩ := h
      refine ⟨body, hcut, ?_⟩
      cases hdecode : Message.decode body with
      | error error => rw [hdecode] at hbody; cases hbody
      | ok decoded => rw [hdecode] at hbody; cases hbody; rfl

/-- There is one way to take a frame off a stream, whatever the limits. -/
theorem Frame.encode_append_inj {body body' rest rest' : List UInt8}
    (h : body.length < UInt32.size) (h' : body'.length < UInt32.size)
    (heq : encode body ++ rest = encode body' ++ rest') : body = body' ∧ rest = rest' := by
  have hmax : (4294967295 : UInt32).toNat + 1 = UInt32.size := rfl
  have hcut : Cut 4294967295 (encode body ++ rest) (.body body) rest := .frame (by omega) rest
  have hcut' : Cut 4294967295 (encode body' ++ rest') (.body body') rest' :=
    .frame (by omega) rest'
  rw [heq] at hcut
  obtain ⟨hbody, hrest⟩ := hcut.unique hcut'
  exact ⟨Outcome.body.inj hbody, hrest⟩

theorem Receiver.read_of_frames {receiver rest : Receiver} {message : Message}
    {messages : List Message} {behind : List UInt8}
    (hfit : ∀ message ∈ messages, message.encode.length < UInt32.size)
    (hflow : frames messages = receiver.pending ++ behind)
    (h : receiver.read = (some (.ok (some message)), rest)) :
    ∃ first more, messages = first :: more ∧ message = first.rewind ∧
      frames more = rest.pending ++ behind := by
  obtain ⟨body, hcut, hdecode⟩ := cut_of_read h
  generalize receiver.pending = pending at hcut hflow
  cases hcut with
  | frame hle left =>
    have hbody : body.length < UInt32.size := Nat.lt_of_le_of_lt hle receiver.max.toNat_lt
    rw [List.append_assoc] at hflow
    cases messages with
    | nil =>
      have hlen := congrArg List.length hflow
      simp [Frame.encode, Frame.headerSize] at hlen
      omega
    | cons first more =>
      rw [frames_cons] at hflow
      have hfirst := hfit first List.mem_cons_self
      obtain ⟨rfl, hmore⟩ := Frame.encode_append_inj hfirst hbody hflow
      have hfits : first.Fits :=
        Message.fits_of_length_lt (Nat.lt_trans hfirst (by decide))
      exact ⟨first, more, rfl, Message.eq_of_decode_encode hfits hdecode, hmore⟩

namespace Transport

/-- The bytes that a move brings to a connection. -/
def Move.bytes : Move → List UInt8
  | .arrive (.ok bytes) => bytes
  | .arrive (.error _) | .pump | .read | .owner | .leave => []

namespace Intake

variable {intake intake' : Intake} {capacity : Nat} {behind flow : List UInt8} {move : Move}

/-- The owner has still to read this flow of bytes, of which all but those behind have been
received. -/
def Expects (capacity : Nat) (intake : Intake) (behind flow : List UInt8) : Prop :=
  ∃ receiver, intake.Tracks capacity receiver ∧ flow = receiver.pending ++ behind

theorem Expects.sound (h : intake.Expects capacity behind flow) : intake.Sound capacity := by
  obtain ⟨receiver, htracks, -⟩ := h
  exact htracks.sound

theorem Expects.append (h : intake.Expects capacity behind flow) (more : List UInt8) :
    intake.Expects capacity (behind ++ more) (flow ++ more) := by
  obtain ⟨receiver, htracks, rfl⟩ := h
  exact ⟨receiver, htracks, List.append_assoc ..⟩

/-- What a read of the socket brings is no longer behind. -/
theorem Expects.goes (h : intake.Expects capacity (move.bytes ++ behind) flow)
    (hp : intake.owner.Present) (hs : intake.step move = some (intake', none)) :
    intake'.Expects capacity behind flow := by
  obtain ⟨receiver, htracks, rfl⟩ := h
  obtain ⟨rest, hrest, rfl⟩ := htracks.step hs
  refine ⟨_, hrest, ?_⟩
  cases move with
  | pump | owner | read | leave => rfl
  | arrive arrival =>
    obtain ⟨next, ha, -⟩ := Option.map_eq_some_iff.mp hs
    obtain ⟨held, -, rfl⟩ := htracks.carries hp
    show _ = (Receiver.arrive _ arrival).pending ++ behind
    cases arrives_of_arrive ha with
    | ended hr => simp [Move.bytes, Receiver.arrive, Receiver.stop]
    | bytes hr hne => simp [Move.bytes, Receiver.arrive, Receiver.deliver, ending?, hr, hne]
    | interrupted hr hk => simp [Move.bytes, Receiver.arrive, hk]
    | failed hr hk => simp [Move.bytes, Receiver.arrive, Receiver.stop, hk]

/-- **The owner is told the first message on its way.** -/
theorem Expects.told {messages : List Message} {message : Message}
    (h : intake.Expects capacity behind (frames messages))
    (hfit : ∀ message ∈ messages, message.encode.length < UInt32.size)
    (hs : intake.step .owner = some (intake', some (.ok (some message)))) :
    ∃ first more, messages = first :: more ∧ message = first.rewind ∧
      intake'.Expects capacity behind (frames more) := by
  obtain ⟨receiver, htracks, hflow⟩ := h
  obtain ⟨rest, hrest, hread⟩ := htracks.step hs
  obtain ⟨first, more, hmessages, hmessage, hmore⟩ := Receiver.read_of_frames hfit hflow hread
  exact ⟨first, more, hmessages, hmessage, rest, hrest, hmore⟩

end Intake

end Transport

end Parley
