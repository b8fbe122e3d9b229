import Parley.Client.Caller
import Parley.Proofs.Transport.Tracks

/-!
# What a client can do

A client takes its turns at its connection, like a worker: `Caller.Turn` lists them. `Caller.Sound`
is the invariant of everything that a client does. Where the client stands says where the owner of
its connection is, and whether it still has the connection.
-/

namespace Parley

open Transport (Intake Owner)

/-- Where the owner of a connection is while its client stands there, and whether the client still
has the connection. -/
def Asking.Places : Asking → (connected : Bool) → Owner → Prop
  | idle, true, owner => owner = .idle
  | idle, false, owner => owner = .gone
  | writing _ _, connected, owner => connected = true ∧ owner = .idle
  | awaiting _, connected, owner => connected = true ∧ owner.Wants
  | leaving _ _, connected, owner => connected = false ∧ owner.Leaves

namespace Caller

variable {caller caller' : Caller} {capacity : Nat} {request : Message} {report : Report}
  {bytes : List UInt8}

/-- The client, its connection and the two threads of this agree. -/
structure Sound (capacity : Nat) (caller : Caller) : Prop where
  intake : caller.intake.Sound capacity
  places : caller.asking.Places caller.client.connected caller.intake.owner

/-! ## Turns -/

/-- The turns of a client at its connection. -/
inductive Turn (caller : Caller) : Caller → Prop
  | goes {intake : Intake} (h : caller.intake.step .owner = some (intake, none))
      (hp : caller.asking.Places caller.client.connected intake.owner) :
    Turn caller { caller with intake }
  | told {request : Message} {intake : Intake} {report : Report}
      (ha : caller.asking = .awaiting request)
      (h : caller.intake.step .owner = some (intake, some report)) (ho : intake.owner = .idle) :
    Turn caller (({ caller with intake } : Caller).conclude request report)
  | parts {request : Message} {error : TransportError} {intake : Intake}
      (ha : caller.asking = .leaving request error)
      (h : caller.intake.step .owner = some (intake, none)) (ho : intake.owner = .gone) :
    Turn caller { caller with
      intake
      asking := .idle
      answered := caller.answered ++ [(request, .error error)] }

/-- **The turns are these.** -/
theorem Sound.turn_of_turn (h : caller.Sound capacity) (ht : caller.turn = some caller') :
    caller.Turn caller' := by
  simp only [turn, Option.bind_eq_bind, Option.bind_eq_some_iff, Option.pure_def,
    Option.some.injEq] at ht
  obtain ⟨⟨intake, report⟩, hturn, rfl⟩ := ht
  have hstep : caller.intake.step .owner = some (intake, report) := hturn
  have howner := (Intake.turn_of_ownerTurn h.intake.owner h.intake.within hturn).owner
  have hplaces := h.places
  obtain ⟨client, asking, conn, answered⟩ := caller
  cases asking with
  | idle =>
    obtain ⟨max, connected⟩ := client
    have ho : conn.owner = .idle ∨ conn.owner = .gone := by
      cases connected with
      | true => exact .inl hplaces
      | false => exact .inr hplaces
    rcases ho with ho | ho
    · simp [ho, Owner.Wants, Owner.Leaves] at howner
    · simp [ho, Owner.Wants, Owner.Leaves] at howner
  | writing request left =>
    have ho : conn.owner = .idle := hplaces.2
    simp [ho, Owner.Wants, Owner.Leaves] at howner
  | awaiting request =>
    rcases howner with ⟨-, ⟨rfl, hwants⟩ | ⟨hsome, hidle⟩⟩ | ⟨hleaves, -, -⟩
    · exact .goes hstep ⟨hplaces.1, hwants⟩
    · obtain ⟨told, rfl⟩ := Option.ne_none_iff_exists'.mp hsome
      exact .told rfl hstep hidle
    · exact absurd hleaves hplaces.2.not_leaves
  | leaving request error =>
    rcases howner with ⟨hwants, -⟩ | ⟨-, rfl, hleaves | hgone⟩
    · exact absurd hplaces.2 hwants.not_leaves
    · have hsame : Turn ⟨client, .leaving request error, conn, answered⟩
          ⟨client, .leaving request error, intake, answered⟩ :=
        .goes hstep ⟨hplaces.1, hleaves⟩
      cases ho : intake.owner with
      | gone => rw [ho] at hleaves; cases hleaves
      | idle | reading | ending | leaving | releasing | joining => exact hsame
    · simp only [hgone]
      exact .parts rfl hstep hgone

/-! ## Everything that a client does -/

theorem conclude_of_ok {response : Message} (h : Client.responseOf report = .ok response) :
    caller.conclude request report = { caller with
      asking := .idle, answered := caller.answered ++ [(request, .ok response)] } := by
  rw [conclude, h]

theorem conclude_of_error {error : TransportError}
    (h : Client.responseOf report = .error error) :
    caller.conclude request report = caller.abandon request error := by
  rw [conclude, h]

theorem sound_conclude (h : caller.intake.Sound capacity) (ho : caller.intake.owner = .idle)
    (hc : caller.client.connected = true) (request : Message) (report : Report) :
    (caller.conclude request report).Sound capacity := by
  cases hr : Client.responseOf report with
  | ok response =>
    rw [conclude_of_ok hr]
    refine ⟨h, ?_⟩
    show Asking.Places .idle caller.client.connected caller.intake.owner
    rw [hc]
    exact ho
  | error error =>
    rw [conclude_of_error hr]
    exact ⟨h.leave ho, rfl, trivial⟩

theorem Sound.ask (h : caller.Sound capacity) (ha : caller.ask request = some caller') :
    caller'.Sound capacity := by
  unfold Caller.ask at ha
  split at ha
  · next hidle =>
    have hplaces := h.places
    rw [hidle] at hplaces
    cases hc : caller.client.connected with
    | false =>
      simp only [hc, Bool.not_false, if_true, Option.some.injEq] at ha
      subst ha
      exact ⟨h.intake, h.places⟩
    | true =>
      rw [hc] at hplaces
      have ho : caller.intake.owner = .idle := hplaces
      simp only [hc, Bool.not_true, Bool.false_eq_true, if_false, Option.some.injEq] at ha
      split at ha
      · subst ha
        exact sound_conclude h.intake ho hc request _
      · subst ha
        exact ⟨h.intake, hc, ho⟩
  · cases ha

theorem Sound.push {n : Nat} (h : caller.Sound capacity)
    (hp : caller.push n = some (caller', bytes)) : caller'.Sound capacity := by
  have hplaces := h.places
  unfold Caller.push at hp
  split at hp
  · next ha =>
    cases hp
    rw [ha] at hplaces
    exact ⟨h.intake.read hplaces.2, hplaces.1, trivial⟩
  · next ha =>
    split at hp
    · cases hp
    · cases hp
      rw [ha] at hplaces
      exact ⟨h.intake, hplaces⟩
  · cases hp

theorem Sound.breakOff {failure : Failure} (h : caller.Sound capacity)
    (hb : caller.breakOff failure = some caller') : caller'.Sound capacity := by
  have hplaces := h.places
  unfold Caller.breakOff at hb
  split at hb
  · next ha =>
    cases hb
    rw [ha] at hplaces
    exact sound_conclude h.intake hplaces.2 hplaces.1 _ _
  · cases hb

theorem Sound.arrives {arrival : Except Failure (List UInt8)} {intake : Intake}
    (h : caller.Sound capacity) (ha : caller.intake.arrive arrival = some intake) :
    ({ caller with intake } : Caller).Sound capacity := by
  have harrives := Intake.arrives_of_arrive ha
  have howner : intake.owner = caller.intake.owner := by cases harrives <;> rfl
  exact ⟨h.intake.arrives harrives, howner ▸ h.places⟩

theorem Sound.pumps {intake : Intake} (h : caller.Sound capacity)
    (hp : caller.intake.pumpTurn = some intake) :
    ({ caller with intake } : Caller).Sound capacity := by
  have hpump := Intake.turn_of_pumpTurn hp
  have howner : intake.owner = caller.intake.owner := by cases hpump <;> rfl
  exact ⟨h.intake.pumpTurn hpump, howner ▸ h.places⟩

theorem Sound.turn (h : caller.Sound capacity) (ht : caller.turn = some caller') :
    caller'.Sound capacity := by
  have hplaces := h.places
  cases h.turn_of_turn ht with
  | goes hs hp => exact ⟨h.intake.step hs, hp⟩
  | told ha hs ho =>
    rw [ha] at hplaces
    refine sound_conclude ?_ ?_ ?_ _ _
    · exact h.intake.step hs
    · exact ho
    · exact hplaces.1
  | @parts request error intake ha hs ho =>
    rw [ha] at hplaces
    refine ⟨h.intake.step hs, ?_⟩
    show Asking.Places .idle caller.client.connected intake.owner
    rw [hplaces.1]
    exact ho

theorem sound_ofConfig? {config : Config} (h : ofConfig? config = some caller) :
    caller.Sound config.bufferCapacity := by
  obtain ⟨intake, hintake, rfl⟩ := Option.map_eq_some_iff.mp h
  exact ⟨Intake.sound_ofConfig? hintake, (Intake.ofConfig?_fresh hintake).2⟩

/-! ## What is for good -/

/-- Answers are not taken back, and a connection that was given up is not had again. -/
structure Keeps (caller caller' : Caller) : Prop where
  answered : caller.answered <+: caller'.answered
  disconnected : caller.client.connected = false → caller'.client.connected = false

theorem Keeps.same (caller : Caller) (asking : Asking) (intake : Intake) :
    caller.Keeps { caller with asking, intake } :=
  ⟨List.prefix_refl _, fun h => h⟩

theorem Keeps.answer (caller : Caller) (asking : Asking) (intake : Intake)
    (answer : Message × Except TransportError Message) :
    caller.Keeps { caller with asking, intake, answered := caller.answered ++ [answer] } :=
  ⟨List.prefix_append _ _, fun h => h⟩

theorem keeps_conclude (caller : Caller) (request : Message) (report : Report) :
    caller.Keeps (caller.conclude request report) := by
  cases hr : Client.responseOf report with
  | ok response =>
    rw [conclude_of_ok hr]
    exact .answer caller _ _ _
  | error error =>
    rw [conclude_of_error hr]
    exact ⟨List.prefix_refl _, fun _ => rfl⟩

theorem keeps_ask (h : caller.ask request = some caller') : caller.Keeps caller' := by
  unfold Caller.ask at h
  split at h
  · next hidle =>
    simp only [Option.some.injEq] at h
    split at h
    · subst h
      exact .answer caller _ _ _
    · split at h
      · subst h
        exact keeps_conclude caller request _
      · subst h
        exact .same caller _ _
  · cases h

theorem keeps_push {n : Nat} (h : caller.push n = some (caller', bytes)) :
    caller.Keeps caller' := by
  unfold Caller.push at h
  split at h
  · cases h
    exact .same caller _ _
  · split at h
    · cases h
    · cases h
      exact .same caller _ _
  · cases h

theorem keeps_breakOff {failure : Failure} (h : caller.breakOff failure = some caller') :
    caller.Keeps caller' := by
  unfold Caller.breakOff at h
  split at h
  · cases h
    exact keeps_conclude caller _ _
  · cases h

theorem Turn.keeps (h : caller.Turn caller') : caller.Keeps caller' := by
  cases h with
  | goes => exact .same caller _ _
  | @told request intake report =>
    have hconclude := keeps_conclude { caller with intake } request report
    exact ⟨hconclude.answered, hconclude.disconnected⟩
  | parts => exact .answer caller _ _ _

end Caller

end Parley
