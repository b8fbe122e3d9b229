import Parley.Proofs.Exchange.Sends
import Parley.Proofs.Exchange.Wire
import Parley.Proofs.Transport.Reports

/-!
# What is on its way to an end

An end of a connection has still to read what it has received, what the wire to it holds and what
the other end has still to write. As long as nothing fails and both sockets stay open these come to
a flow of bytes that only the other end adds to, and once the wire is closed the end of the stream
is behind all of it.

**The invariant** (`Intake.Flows`). It says nothing of an end that gives its connection up.

**Theorem (`Intake.Flows.told`).** What the owner is told is what a stream of the whole flow begins
with, however much of it has arrived.
-/

namespace Parley

open Parley.Frame (Cut Outcome)

namespace Receiver

variable {max : UInt32} {pending left : List UInt8} {report : Report} {rest : Receiver}

/-- What can be told of an open stream can be told whatever comes behind it. -/
theorem read_append_of_open (h : ({ max, pending } : Receiver).read = (some report, rest))
    (behind : List UInt8) : ∃ left, rest = { max, pending := left } ∧
      ({ max, pending := pending ++ behind } : Receiver).read =
        (some report, { max, pending := left ++ behind }) := by
  obtain ⟨outcome, left, hcut⟩ := Frame.exists_cut max pending
  by_cases hend : outcome.IsEnd
  · rw [read_of_cut_end hcut hend] at h
    cases h
  · rw [read_of_cut hcut hend] at h
    cases h
    exact ⟨left, rfl, read_of_cut (hcut.append hend behind) hend none⟩

theorem ending_of_ended
    (h : ({ max, pending, ending := some .ended } : Receiver).read = (some report, rest)) :
    ∃ left, rest = { max, pending := left, ending := some .ended } := by
  obtain ⟨outcome, left, hcut⟩ := Frame.exists_cut max pending
  by_cases hend : outcome.IsEnd
  · rw [read_of_cut_end hcut hend] at h
    cases h
    exact ⟨[], rfl⟩
  · rw [read_of_cut hcut hend] at h
    cases h
    exact ⟨left, rfl⟩

end Receiver

/-- A wire that holds what it held, and is closed if it was. -/
structure Wire.Fades (wire wire' : Wire) : Prop where
  held : wire'.held = wire.held
  closed : wire.isOpen = false → wire'.isOpen = false

theorem Wire.Fades.refl (wire : Wire) : wire.Fades wire := ⟨rfl, id⟩

namespace Transport.Intake

variable {intake intake' : Intake} {capacity : Nat} {max : UInt32} {wire wire' : Wire}
  {left flow bytes : List UInt8} {report : Option Report}

/-- The owner, if it is there, has still to read this flow of bytes: what it has received, what the
wire holds and what is left to be written. Its stream has ended only behind all of it, on a closed
wire. -/
def Flows (capacity : Nat) (max : UInt32) (wire : Wire) (left flow : List UInt8)
    (intake : Intake) : Prop :=
  intake.owner.Present → ∃ pending ending, intake.Tracks capacity { max, pending, ending } ∧
    flow = pending ++ (wire.held ++ left) ∧
    (ending = none ∨ ending = some .ended ∧ wire.isOpen = false ∧ wire.held ++ left = [])

theorem OwnerTurn.present (t : intake.OwnerTurn intake' report) (hp : intake'.owner.Present) :
    intake.owner.Present := by
  cases t with
  | adds ho | completes ho | meetsEnd ho | tellsFailure ho | tells ho =>
    rw [ho]
    trivial
  | waits => exact hp
  | shuts | releases | joins => cases hp

theorem Flows.goes {move : Move} (h : intake.Flows capacity max wire left flow)
    (hm : Move.arrivals [move] = []) (hp : intake'.owner.Present → intake.owner.Present)
    (hs : intake.step move = some (intake', none)) : intake'.Flows capacity max wire left flow := by
  intro hpresent
  obtain ⟨pending, ending, htracks, hflow, hending⟩ := h (hp hpresent)
  obtain ⟨rest, hrest, htells⟩ := htracks.step hs
  rw [hm] at htells
  obtain rfl := htells
  exact ⟨pending, ending, hrest, hflow, hending⟩

theorem Flows.pumps (h : intake.Flows capacity max wire left flow)
    (hs : intake.pumpTurn = some intake') : intake'.Flows capacity max wire left flow := by
  refine h.goes rfl ?_ (step_pump hs)
  cases turn_of_pumpTurn hs <;> exact id

/-- A read of the socket brings what the wire holds, or the end behind all of the flow. -/
theorem Flows.pulls {n : Nat} (h : intake.Flows capacity max wire left flow) (hn : 0 < n)
    (hr : wire.receive n = some (bytes, wire')) (ha : intake.arrive (.ok bytes) = some intake')
    (hleft : intake.owner.Present → wire.isOpen = false → left = []) :
    intake'.Flows capacity max wire' left flow := by
  have harrives := arrives_of_arrive ha
  have howner : intake'.owner = intake.owner := by cases harrives <;> rfl
  intro hpresent
  rw [howner] at hpresent
  obtain ⟨pending, ending, htracks, rfl, hending⟩ := h hpresent
  have hnext := htracks.arrive harrives
  have hheld := Wire.held_of_receive hr
  cases bytes with
  | nil =>
    obtain ⟨rfl, hempty, hclosed⟩ := Wire.eq_of_receive_nil hn hr
    have hnone : wire'.held ++ left = [] := by rw [hempty, hleft hpresent hclosed]; rfl
    refine ⟨pending, some .ended, ?_, rfl, .inr ⟨rfl, hclosed, hnone⟩⟩
    rcases hending with rfl | ⟨rfl, -⟩
    · exact hnext
    · exact hnext
  | cons byte more =>
    rcases hending with rfl | ⟨-, -, hnone⟩
    · refine ⟨pending ++ byte :: more, none, hnext, ?_, .inl rfl⟩
      rw [hheld, List.append_assoc, List.append_assoc]
    · rw [hheld] at hnone
      cases hnone

theorem Flows.takes (h : intake.Flows capacity max wire (bytes ++ left) flow)
    (hw : wire.Takes bytes wire') : intake.Flows capacity max wire' left flow := by
  intro hpresent
  obtain ⟨pending, ending, htracks, hflow, hending⟩ := h hpresent
  have hsame : wire'.held ++ left = wire.held ++ (bytes ++ left) := by
    rw [hw.held, List.append_assoc]
  exact ⟨pending, ending, htracks, hsame ▸ hflow, by rwa [hsame, hw.isOpen]⟩

theorem Flows.begins (h : intake.Flows capacity max wire [] flow) (hopen : wire.isOpen = true)
    (more : List UInt8) : intake.Flows capacity max wire more (flow ++ more) := by
  intro hpresent
  obtain ⟨pending, ending, htracks, rfl, hending⟩ := h hpresent
  rcases hending with rfl | ⟨-, hclosed, -⟩
  · refine ⟨pending, none, htracks, ?_, .inl rfl⟩
    rw [List.append_nil, List.append_assoc]
  · rw [hopen] at hclosed
    cases hclosed

theorem Flows.fades (h : intake.Flows capacity max wire left flow) (hw : wire.Fades wire') :
    intake.Flows capacity max wire' left flow := by
  intro hpresent
  obtain ⟨pending, ending, htracks, hflow, hending⟩ := h hpresent
  rw [← hw.held] at hflow hending
  exact ⟨pending, ending, htracks, hflow,
    hending.imp_right fun ⟨hended, hclosed, hnone⟩ => ⟨hended, hw.closed hclosed, hnone⟩⟩

theorem Flows.left_eq_nil (h : intake.Flows capacity max wire left [])
    (hp : intake.owner.Present) : left = [] := by
  obtain ⟨pending, ending, -, hflow, -⟩ := h hp
  have hnil : pending ++ (wire.held ++ left) = [] := hflow.symm
  simp only [List.append_eq_nil_iff] at hnil
  exact hnil.2.2

theorem Flows.max_eq (h : intake.Flows capacity max wire left flow)
    (hp : intake.owner.Present) : intake.max = max := by
  obtain ⟨pending, ending, htracks, -, -⟩ := h hp
  obtain ⟨held, -, heq⟩ := htracks.carries hp
  exact (congrArg Receiver.max heq).symm

/-- **The owner is told what the flow begins with**, or the end on a closed wire. -/
theorem Flows.told {told : Report} (h : intake.Flows capacity max wire left flow)
    (hp : intake.owner.Present) (hs : intake.step .owner = some (intake', some told)) :
    ∃ ending more, (ending = none ∨ ending = some .ended ∧ wire.isOpen = false) ∧
      ({ max, pending := flow, ending } : Receiver).read =
        (some told, { max, pending := more, ending }) ∧
      intake'.Flows capacity max wire left more := by
  obtain ⟨pending, ending, htracks, rfl, hending⟩ := h hp
  obtain ⟨rest, hrest, htells⟩ := htracks.step hs
  have hread : Receiver.read { max, pending, ending } = (some told, rest) := htells
  rcases hending with rfl | ⟨rfl, hclosed, hnone⟩
  · obtain ⟨after, rfl, happend⟩ := Receiver.read_append_of_open hread (wire.held ++ left)
    exact ⟨none, _, .inl rfl, happend, fun _ => ⟨after, none, hrest, rfl, .inl rfl⟩⟩
  · obtain ⟨after, rfl⟩ := Receiver.ending_of_ended hread
    refine ⟨some .ended, after, .inr ⟨rfl, hclosed⟩, ?_, fun _ => ?_⟩
    · rw [hnone, List.append_nil]
      exact hread
    · refine ⟨after, some .ended, hrest, ?_, .inr ⟨rfl, hclosed, hnone⟩⟩
      rw [hnone, List.append_nil]

/-- Where nothing is on its way the owner is told the end, on a closed wire. -/
theorem Flows.told_of_nil {told : Report} (h : intake.Flows capacity max wire left [])
    (hp : intake.owner.Present) (hs : intake.step .owner = some (intake', some told)) :
    told = .ok none ∧ wire.isOpen = false ∧ intake'.Flows capacity max wire left [] := by
  obtain ⟨ending, more, hending, hread, hnext⟩ := h.told hp hs
  rcases hending with rfl | ⟨rfl, hclosed⟩
  · cases hread
  · cases hread
    exact ⟨rfl, hclosed, hnext⟩

/-- Where a frame is on its way the owner is told what is always told of it. -/
theorem Flows.told_of_encode {told : Report} {body : List UInt8}
    (h : intake.Flows capacity max wire left (Frame.encode body)) (hp : intake.owner.Present)
    (hs : intake.step .owner = some (intake', some told)) {report : Report} {more : List UInt8}
    (hread : ∀ ending, ({ max, pending := Frame.encode body, ending } : Receiver).read =
      (some report, { max, pending := more, ending })) :
    told = report ∧ intake'.Flows capacity max wire left more := by
  obtain ⟨ending, after, -, hread', hnext⟩ := h.told hp hs
  rw [hread ending] at hread'
  cases hread'
  exact ⟨rfl, hnext⟩

end Transport.Intake

end Parley
