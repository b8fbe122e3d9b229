import Parley.Proofs.Transport.Turns

/-!
# Two threads as one receiver

What the two threads of a connection hold between them is what a `Receiver` holds: the bytes of
the frame at hand, then those in the buffer, then those that the pump has read and not yet
written. How the stream stopped is known to the pump first and then to the slot.

**Theorem (`Intake.Tracks.step`).** Every move corresponds to what the receiver does. A read of
the socket is an arrival. The pump's turns move bytes along and change nothing. The owner's
turns change nothing either until it has a report, and then this is the report that the
receiver's read makes.
-/

namespace Parley.Transport

open Buffer (OfferTurn TakeTurn)
open Parley.Frame (Assembly Outcome Cut)

/-! ## What is held -/

/-- The owner has not begun to give the connection up. -/
def Owner.Present : Owner → Prop
  | idle | reading _ | ending _ => True
  | leaving | releasing | joining | gone => False

theorem Owner.Wants.present {owner : Owner} (h : owner.Wants) : owner.Present := by
  cases owner with
  | reading | ending => trivial
  | idle | leaving | releasing | joining | gone => cases h

theorem Owner.HasShut.not_present {owner : Owner} (h : owner.HasShut) : ¬owner.Present := by
  cases owner with
  | idle | reading | ending | leaving => cases h
  | releasing | joining | gone => exact id

/-- The bytes of the frame at hand that the owner has taken. -/
inductive Owner.Holds (max : UInt32) : Owner → List UInt8 → Prop
  | idle : Holds max .idle []
  | reading (assembly : Assembly) : Holds max (.reading assembly) assembly.bytes
  | ending {bytes : List UInt8} {outcome : Outcome} (hend : outcome.IsEnd)
    (hcut : Cut max bytes outcome []) : Holds max (.ending (.ofOutcome outcome)) bytes

namespace Intake

variable {intake intake' : Intake} {receiver : Receiver}
  {arrival : Except Failure (List UInt8)} {report : Option Report} {capacity : Nat}

/-- The bytes that the pump has read and not yet written. -/
def inHand (intake : Intake) : List UInt8 :=
  match intake.pump, intake.pair.writing with
  | .forwarding chunk, _ => chunk
  | .parked, .waiting _ left => left
  | _, _ => []

/-- The bytes that the owner has not yet taken, oldest first. -/
def underWay (intake : Intake) : List UInt8 := intake.pair.buffer.contents ++ intake.inHand

/-- How the stream stopped, if it has, as long as the owner has not been told. -/
def ending? (intake : Intake) : Option Ending :=
  match intake.pump with
  | .receiving | .forwarding _ | .parked => none
  | .reporting failure => some (.failed failure)
  | .closing | .finished => some (intake.slot.elim .ended .failed)

/-- The threads hold what the receiver holds. -/
def Carries (intake : Intake) (receiver : Receiver) : Prop :=
  ∃ held, intake.owner.Holds intake.max held ∧
    receiver = { max := intake.max, pending := held ++ intake.underWay, ending := intake.ending? }

/-- The threads correspond to the receiver, as long as the owner is there. -/
structure Tracks (capacity : Nat) (intake : Intake) (receiver : Receiver) : Prop where
  sound : intake.Sound capacity
  carries : intake.owner.Present → intake.Carries receiver

theorem ofConfig?_fresh {config : Config} (h : ofConfig? config = some intake) :
    intake.max = config.maxFrameSize ∧ intake.owner = .idle := by
  simp only [ofConfig?, Option.map_eq_some_iff] at h
  obtain ⟨pair, -, rfl⟩ := h
  exact ⟨rfl, rfl⟩

theorem tracks_ofConfig? {config : Config} (h : ofConfig? config = some intake) :
    intake.Tracks config.bufferCapacity { max := config.maxFrameSize } := by
  refine ⟨sound_ofConfig? h, fun _ => ⟨[], ?_⟩⟩
  simp only [ofConfig?, Buffer.Pair.ofCapacity?, Buffer.ofCapacity?] at h
  split at h
  · cases h
    exact ⟨.idle, rfl⟩
  · cases h

/-! ## Turns -/

theorem Tracks.arrive (h : intake.Tracks capacity receiver)
    (ha : intake.Arrives arrival intake') :
    intake'.Tracks capacity (receiver.arrive arrival) := by
  refine ⟨h.sound.arrives ha, ?_⟩
  cases ha with
  | ended hp =>
    intro hpresent
    obtain ⟨held, hholds, rfl⟩ := h.carries hpresent
    have hslot : intake.slot = none := h.sound.slot_eq_none (by simp [hp])
    refine ⟨held, hholds, ?_⟩
    simp [Receiver.arrive, Receiver.stop, ending?, underWay, inHand, hp, hslot]
  | bytes hp hne =>
    intro hpresent
    obtain ⟨held, hholds, rfl⟩ := h.carries hpresent
    refine ⟨held, hholds, ?_⟩
    simp [Receiver.arrive, Receiver.deliver, ending?, underWay, inHand, hp, hne]
  | interrupted hp hk =>
    rw [Receiver.arrive, if_pos hk]
    exact h.carries
  | failed hp hk =>
    intro hpresent
    obtain ⟨held, hholds, rfl⟩ := h.carries hpresent
    refine ⟨held, hholds, ?_⟩
    simp [Receiver.arrive, Receiver.stop, ending?, underWay, inHand, hp, hk]

theorem Forwards.inHand {data left : List UInt8} (h : intake.Forwards data left) :
    intake.inHand = left := by
  cases h with
  | start hp => rw [Intake.inHand, hp]
  | resume hp hw => rw [Intake.inHand, hp, hw]

theorem Forwards.ending? {data left : List UInt8} (h : intake.Forwards data left) :
    intake.ending? = none := by
  cases h with
  | start hp | resume hp => rw [Intake.ending?, hp]

theorem Sound.alive (h : intake.Sound capacity) (hp : intake.owner.Present) :
    intake.pair.buffer.readerGone = false := by
  rw [← Bool.not_eq_true, h.coherent.readerGone]
  intro hgone
  have hfits := h.owner
  rw [hgone] at hfits
  cases ho : intake.owner with
  | idle | ending => rw [ho] at hfits; cases hfits
  | reading => rw [ho] at hfits; rcases hfits with hfits | hfits <;> cases hfits
  | leaving | releasing | joining | gone => rw [ho] at hp; exact hp

/-- The pump moves bytes along and keeps to itself how the stream stopped. -/
theorem Sound.pumpTurn_frame (h : intake.Sound capacity) (hp : intake.owner.Present)
    (t : intake.PumpTurn intake') :
    intake'.max = intake.max ∧ intake'.owner = intake.owner ∧
      intake'.underWay = intake.underWay ∧ intake'.ending? = intake.ending? := by
  cases t with
  | wrote hf ht =>
    refine ⟨rfl, rfl, ?_, hf.ending?.symm⟩
    rw [underWay, underWay, hf.inHand]
    show _ ++ [] = _
    rw [List.append_nil]
    cases ht with
    | nothing hnil => rw [hnil, List.append_nil]; rfl
    | whole _ _ _ hr =>
      show (intake.pair.buffer.ring.push _).1.contents = _
      rw [Ring.contents_push, List.take_of_length_le hr]
      rfl
  | refused hf ht =>
    cases ht with
    | closed _ hc => exact absurd (h.closed.mp hc) fun hfin => hf.underWay (.inr hfin)
    | readerGone _ _ hg => simp [h.alive hp] at hg
  | waits hf ht =>
    refine ⟨rfl, rfl, ?_, hf.ending?.symm⟩
    rw [underWay, underWay, hf.inHand]
    cases ht with
    | full => rfl
    | part =>
      show (intake.pair.buffer.ring.push _).1.contents ++ _ = _
      rw [Ring.contents_push, List.append_assoc]
      exact congrArg (intake.pair.buffer.contents ++ ·) (List.take_append_drop _ _)
  | reports hr => exact ⟨rfl, rfl, by simp [underWay, inHand, hr], by simp [ending?, hr]⟩
  | closes hc =>
    obtain ⟨hring, -⟩ := Buffer.close_frame intake.pair.buffer
    refine ⟨rfl, rfl, ?_, by simp [ending?, hc]⟩
    simp [underWay, inHand, hc, Buffer.contents, hring]

theorem Tracks.pump (h : intake.Tracks capacity receiver) (t : intake.PumpTurn intake') :
    intake'.Tracks capacity receiver := by
  have howner : intake'.owner = intake.owner := by cases t <;> rfl
  refine ⟨h.sound.pumpTurn t, fun hp => ?_⟩
  rw [howner] at hp
  obtain ⟨hmax, -, hunder, hending⟩ := h.sound.pumpTurn_frame hp t
  rw [Carries, howner, hmax, hunder, hending]
  exact h.carries hp

theorem underWay_take {n : Nat} {bytes : List UInt8} {buffer : Buffer} (owner : Owner)
    (ht : TakeTurn intake.pair.buffer n buffer (.bytes bytes)) :
    bytes ++ ({ intake with
      pair := { intake.pair with buffer, reading := .idle }, owner } : Intake).underWay =
      intake.underWay := by
  cases ht with
  | nothing => rfl
  | some =>
    show _ ++ ((intake.pair.buffer.ring.pop n).1.contents ++ _) = _
    rw [Ring.contents_pop, ← List.append_assoc]
    exact congrArg (· ++ _) (List.take_append_drop _ _)

theorem underWay_drained (hfin : intake.pump = .finished)
    (hempty : intake.pair.buffer.ring.size = 0) : intake.underWay = [] := by
  have hcontents : intake.pair.buffer.contents = [] :=
    List.eq_nil_of_length_eq_zero ((Ring.length_contents _).trans hempty)
  simp [underWay, inHand, hcontents, hfin]

/-- When the owner has met the end, the receiver holds no more than the frame at hand. -/
theorem Tracks.ending (h : intake.Tracks capacity receiver) {told : Report}
    (ho : intake.owner = .ending told) :
    ∃ pending outcome, outcome.IsEnd ∧ Cut intake.max pending outcome [] ∧
      told = .ofOutcome outcome ∧
      receiver = {
        max := intake.max, pending, ending := some (intake.slot.elim .ended .failed) } := by
  obtain ⟨hfin, hempty⟩ := h.sound.drained (by rw [ho]; trivial)
  obtain ⟨held, hholds, heq⟩ := h.carries (by rw [ho]; trivial)
  rw [underWay_drained hfin hempty, ending?, hfin, List.append_nil] at heq
  rw [ho] at hholds
  cases hholds with
  | ending hend hcut => exact ⟨held, _, hend, hcut, rfl, heq⟩

/-- When the pump waits for the socket and the owner for the pump, the receiver holds no more
than the frame at hand. -/
theorem Tracks.starved (h : intake.Tracks capacity receiver) (hp : intake.pump = .receiving)
    (hr : intake.pair.buffer.reader = .waiting) :
    ∃ pending outcome, outcome.IsEnd ∧ Cut intake.max pending outcome [] ∧
      receiver = { max := intake.max, pending } := by
  obtain ⟨assembly, ho⟩ := h.sound.reading_of_waiting hr
  obtain ⟨held, hholds, heq⟩ := h.carries (by rw [ho]; trivial)
  rw [ho] at hholds
  cases hholds
  obtain ⟨outcome, hend, hcut, -⟩ := Assembly.cut_bytes (h.sound.within assembly ho)
  have hempty : intake.pair.buffer.contents = [] := List.eq_nil_of_length_eq_zero
    ((Ring.length_contents _).trans (h.sound.coherent.justified.reader hr).1)
  refine ⟨assembly.bytes, outcome, hend, hcut, ?_⟩
  rw [heq]
  simp [underWay, inHand, ending?, hempty, hp]

/-- Once the owner has told how the stream ended, nothing is left but the end. -/
theorem Tracks.told (h : intake.Tracks capacity receiver) {told : Report}
    (ho : intake.owner = .ending told) :
    ({ intake with slot := none, owner := .idle } : Intake).Carries
      { max := intake.max, ending := some .ended } := by
  obtain ⟨hfin, hempty⟩ := h.sound.drained (by rw [ho]; trivial)
  refine ⟨[], .idle, ?_⟩
  have hunder : ({ intake with slot := none, owner := .idle } : Intake).underWay = [] :=
    underWay_drained hfin hempty
  rw [hunder, ending?]
  simp only [hfin]
  rfl

theorem Tracks.owner (h : intake.Tracks capacity receiver)
    (t : intake.OwnerTurn intake' report) :
    ∃ rest, intake'.Tracks capacity rest ∧ receiver.Tells report rest := by
  have hsound := h.sound.ownerTurn t
  have hcarries := h.carries
  cases t with
  | @adds assembly next bytes buffer ho ht _ hb =>
    refine ⟨receiver, ⟨hsound, fun _ => ?_⟩, rfl⟩
    rw [ho] at hcarries
    obtain ⟨held, hholds, rfl⟩ := hcarries trivial
    rw [ho] at hholds
    cases hholds
    refine ⟨next.bytes, .reading next, ?_⟩
    rw [hb, List.append_assoc, underWay_take (.reading next) ht]
    rfl
  | @completes assembly bytes buffer outcome ho ht hend hcut =>
    rw [ho] at hcarries
    obtain ⟨held, hholds, rfl⟩ := hcarries trivial
    rw [ho] at hholds
    cases hholds
    refine ⟨_, ⟨hsound, fun _ => ⟨[], .idle, rfl⟩⟩, ?_⟩
    rw [Receiver.Tells, ← underWay_take .idle ht, ← List.append_assoc]
    exact Receiver.read_of_cut (hcut.append hend _) hend _
  | @meetsEnd assembly buffer outcome ho ht hend hcut =>
    refine ⟨receiver, ⟨hsound, fun _ => ?_⟩, rfl⟩
    rw [ho] at hcarries
    obtain ⟨held, hholds, rfl⟩ := hcarries trivial
    rw [ho] at hholds
    cases hholds
    refine ⟨assembly.bytes, .ending hend hcut, ?_⟩
    cases ht
    rfl
  | waits ho ht =>
    refine ⟨receiver, ⟨hsound, fun _ => ?_⟩, rfl⟩
    obtain ⟨held, hholds, rfl⟩ := hcarries (by rw [ho]; trivial)
    refine ⟨held, hholds, ?_⟩
    cases ht
    rfl
  | tellsFailure ho hs =>
    obtain ⟨pending, outcome, hend, hcut, -, rfl⟩ := h.ending ho
    refine ⟨_, ⟨hsound, fun _ => h.told ho⟩, ?_⟩
    rw [Receiver.Tells, Receiver.read_of_cut_end hcut hend, hs]
    rfl
  | tells ho hs =>
    obtain ⟨pending, outcome, hend, hcut, rfl, rfl⟩ := h.ending ho
    have htold := h.told ho
    rw [← hs] at htold
    refine ⟨_, ⟨hsound, fun _ => htold⟩, ?_⟩
    rw [Receiver.Tells, Receiver.read_of_cut_end hcut hend, hs]
    rfl
  | shuts | releases | joins => exact ⟨receiver, ⟨hsound, False.elim⟩, rfl⟩

theorem Tracks.read (h : intake.Tracks capacity receiver) (ho : intake.owner = .idle) :
    ({ intake with owner := .reading .start } : Intake).Tracks capacity receiver := by
  refine ⟨h.sound.read ho, fun _ => ?_⟩
  obtain ⟨held, hholds, rfl⟩ := h.carries (by rw [ho]; trivial)
  rw [ho] at hholds
  cases hholds
  exact ⟨[], .reading .start, rfl⟩

/-- **Every move is one of the receiver's**: an arrival, a read with its report, or nothing. -/
theorem Tracks.step {move : Move} (h : intake.Tracks capacity receiver)
    (hs : intake.step move = some (intake', report)) :
    ∃ rest, intake'.Tracks capacity rest ∧
      ((Move.arrivals [move]).foldl Receiver.arrive receiver).Tells report rest := by
  cases move with
  | arrive arrival =>
    obtain ⟨next, harrive, heq⟩ := Option.map_eq_some_iff.mp hs
    cases heq
    exact ⟨_, h.arrive (arrives_of_arrive harrive), rfl⟩
  | pump =>
    obtain ⟨next, hpump, heq⟩ := Option.map_eq_some_iff.mp hs
    cases heq
    exact ⟨_, h.pump (turn_of_pumpTurn hpump), rfl⟩
  | owner => exact h.owner (turn_of_ownerTurn h.sound.owner h.sound.within hs)
  | read =>
    simp only [Intake.step] at hs
    split at hs
    · next ho => cases hs; exact ⟨_, h.read ho, rfl⟩
    · cases hs
  | leave =>
    simp only [Intake.step] at hs
    split at hs
    · next ho => cases hs; exact ⟨receiver, ⟨h.sound.leave ho, False.elim⟩, rfl⟩
    · cases hs

end Intake

end Parley.Transport
