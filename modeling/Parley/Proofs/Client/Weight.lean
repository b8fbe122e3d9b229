import Parley.Proofs.Client.Caller
import Parley.Proofs.Exchange.Wire
import Parley.Proofs.Transport.Progress

/-!
# The weight of a client

A client that goes on with a request gets lighter: what it has still to write weighs more than the
read that follows, and a read weighs more than giving the connection up over what it brings.
-/

namespace Parley

open Transport (Intake Owner)

/-- A byte that is left to be written weighs more than one on its way. -/
def Asking.weight : Asking → Nat
  | idle | leaving _ _ => 0
  | writing _ left => 6 * left.length + 8
  | awaiting _ => 5

theorem Transport.Intake.weight_owner {intake : Intake} (ho : intake.owner = .idle)
    (owner : Owner) :
    ({ intake with owner } : Intake).weight = intake.weight + owner.weight := by
  have hhand : ({ intake with owner } : Intake).inHand = intake.inHand := rfl
  simp only [Intake.weight, hhand, ho, Owner.weight]
  omega

/-- A byte that the socket holds weighs more than one that has been read. -/
theorem Transport.Intake.weight_pull {intake intake' : Intake} {wire wire' : Wire} {n : Nat}
    {bytes : List UInt8} (hr : wire.receive n = some (bytes, wire'))
    (ha : intake.arrive (.ok bytes) = some intake') :
    intake'.weight + 5 * wire'.held.length < intake.weight + 5 * wire.held.length := by
  have harrives := Intake.arrives_of_arrive ha
  have hheld := congrArg List.length (Wire.held_of_receive hr)
  rw [List.length_append] at hheld
  cases bytes with
  | nil =>
    have hlt := harrives.weight_lt_of_nil
    rw [List.length_nil] at hheld
    omega
  | cons byte more =>
    have hlt := harrives.weight_lt
    simp only [arrivalWeight, List.length_cons] at hlt hheld
    omega

namespace Caller

variable {caller caller' : Caller} {capacity : Nat} {request : Message} {bytes : List UInt8}

def weight (caller : Caller) : Nat := caller.intake.weight + caller.asking.weight

theorem weight_conclude_le (ho : caller.intake.owner = .idle) (request : Message)
    (report : Report) : (caller.conclude request report).weight ≤ caller.intake.weight + 4 := by
  cases hr : Client.responseOf report with
  | ok response =>
    rw [conclude_of_ok hr]
    simp [weight, Asking.weight]
  | error error =>
    have hleaves := Intake.weight_owner ho .leaving
    rw [conclude_of_error hr]
    simp only [weight, abandon, hleaves, Asking.weight, Owner.weight]
    omega

theorem Sound.weight_push (h : caller.Sound capacity) {n : Nat}
    (hp : caller.push n = some (caller', bytes)) :
    caller'.weight + 5 * bytes.length < caller.weight := by
  have hplaces := h.places
  unfold Caller.push at hp
  split at hp
  · next ha =>
    rw [ha] at hplaces
    cases hp
    have hreads := Intake.weight_owner hplaces.2 (.reading .start)
    simp only [weight, hreads, ha, Asking.weight, Owner.weight, List.length_nil]
    omega
  · next left hne ha =>
    split at hp
    · cases hp
    · cases hp
      have hpos := List.length_pos_iff.mpr hne
      simp only [weight, ha, Asking.weight, List.length_take, List.length_drop]
      omega
  · cases hp

theorem Sound.weight_breakOff (h : caller.Sound capacity) {failure : Failure}
    (hb : caller.breakOff failure = some caller') : caller'.weight < caller.weight := by
  have hplaces := h.places
  unfold Caller.breakOff at hb
  split at hb
  · next request left ha =>
    rw [ha] at hplaces
    obtain rfl := Option.some.inj hb
    refine Nat.lt_of_le_of_lt (weight_conclude_le hplaces.2 request _) ?_
    simp only [weight, ha, Asking.weight]
    omega
  · cases hb

theorem Sound.weight_turn (h : caller.Sound capacity)
    (hawake : caller.intake.pair.buffer.reader ≠ .waiting) (ht : caller.turn = some caller') :
    caller'.weight < caller.weight := by
  have hlt : ∀ {intake : Intake} {report : Option Report},
      caller.intake.step .owner = some (intake, report) → intake.weight < caller.intake.weight :=
    fun hstep => (Intake.turn_of_ownerTurn h.intake.owner h.intake.within hstep).weight_lt hawake
  cases h.turn_of_turn ht with
  | goes hstep => exact Nat.add_lt_add_right (hlt hstep) _
  | @told request intake report ha hstep ho =>
    have hidle : ({ caller with intake } : Caller).intake.owner = .idle := ho
    refine Nat.lt_of_le_of_lt (weight_conclude_le hidle request report) ?_
    have hlighter := hlt hstep
    simp only [weight, ha, Asking.weight]
    omega
  | parts ha hstep =>
    have hlighter := hlt hstep
    simp only [weight, ha, Asking.weight]
    omega

end Caller

end Parley
