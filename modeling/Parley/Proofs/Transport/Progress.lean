import Mathlib.Algebra.Ring.Nat
import Parley.Proofs.Buffer.Weight
import Parley.Proofs.Inevitable
import Parley.Proofs.Transport.Tracks

/-!
# Reads come to their end

A connection's threads wait for each other and for the socket. Whatever the owner has begun
comes to its end, whichever thread goes first, unless all that the socket brings is used up
and the owner waits for more.

**What goes on** (`Course.Advances`). A read of the socket brings the next arrival of a script,
or a thread that does not wait, or no longer, takes its turn; a socket that has been shut down
brings its end.

**Why it comes to an end.** Every move makes the connection lighter (`Course.Advances.weight_lt`).
And as long as the owner is busy there is a move (`Course.Live.exists_advance`), since a thread
that waits has a reason to, and the two do not wait for each other.
-/

namespace Parley

namespace Transport

open Buffer (OfferTurn TakeTurn)
open Parley.Frame (Assembly)

def Pump.weight : Pump → Nat
  | finished => 0
  | closing => 2
  | reporting _ => 3
  | receiving => 4
  | forwarding _ | parked => 5

def Owner.weight : Owner → Nat
  | idle | gone => 0
  | ending _ | joining => 1
  | reading _ => 2
  | releasing => 3
  | leaving => 4

/-- What is still to arrive is heavier than what has. -/
def arrivalWeight : Except Failure (List UInt8) → Nat
  | .ok chunk => 3 * chunk.length + 2
  | .error _ => 1

namespace Intake

variable {intake intake' : Intake} {arrival : Except Failure (List UInt8)}
  {report : Option Report} {capacity : Nat}

def weight (intake : Intake) : Nat :=
  3 * intake.inHand.length + intake.pair.buffer.weight + intake.pump.weight + intake.owner.weight

theorem Arrives.weight_lt (h : intake.Arrives arrival intake') :
    intake'.weight < intake.weight + arrivalWeight arrival := by
  cases h with
  | ended hp | bytes hp | failed hp =>
    simp only [weight, inHand, Pump.weight, arrivalWeight, hp, List.length_nil]
    omega
  | interrupted => simp [arrivalWeight]

theorem Arrives.weight_lt_of_nil (h : intake.Arrives (.ok []) intake') :
    intake'.weight < intake.weight := by
  cases h with
  | ended hp =>
    simp [weight, inHand, Pump.weight, hp]
  | bytes _ hne => exact absurd rfl hne

theorem Forwards.weight {data left : List UInt8} (h : intake.Forwards data left) :
    intake.weight =
      3 * left.length + intake.pair.buffer.weight + 5 + intake.owner.weight := by
  rw [Intake.weight, h.inHand]
  cases h with
  | start hp | resume hp => rw [hp]; rfl

theorem PumpTurn.weight_lt (t : intake.PumpTurn intake')
    (ha : intake.pair.buffer.writer ≠ .waiting) : intake'.weight < intake.weight := by
  cases t with
  | wrote hf ht =>
    have hle := ht.weight_le ha
    rw [hf.weight]
    simp only [weight, inHand, Pump.weight, Offered.left, List.length_nil] at hle ⊢
    omega
  | @refused data left rest buffer error hf ht =>
    have hle := ht.weight_le ha
    -- The bytes that are refused have nowhere to go and weigh more than what is still to do.
    have hrest : 0 < rest.length := by
      cases ht with
      | closed hne | readerGone hne => exact List.length_pos_iff.mpr hne
    rw [hf.weight]
    simp only [weight, inHand, Pump.weight, Offered.left, List.length_nil] at hle ⊢
    omega
  | waits hf ht =>
    have hle := ht.weight_le ha
    rw [hf.weight]
    simp only [weight, inHand, Pump.weight, Offered.left, Offered.stance,
      Stance.weight_waiting] at hle ⊢
    omega
  | reports hr => simp [weight, inHand, Pump.weight, hr]
  | closes hc =>
    have hle := intake.pair.buffer.weight_close_le
    simp only [weight, inHand, Pump.weight, hc]
    omega

theorem OwnerTurn.weight_lt (t : intake.OwnerTurn intake' report)
    (ha : intake.pair.buffer.reader ≠ .waiting) : intake'.weight < intake.weight := by
  -- A turn of the owner's read; the pump's side of it stays the same.
  have hread : ∀ {assembly : Assembly} {buffer : Buffer} {result : Taken}
      (reading : Buffer.Reading) (owner : Owner), intake.owner = .reading assembly →
      TakeTurn intake.pair.buffer assembly.demand buffer result →
      owner.weight + (if result = .ended then 1 else 0) ≤ 2 →
      ({ intake with pair := { intake.pair with buffer, reading }, owner } : Intake).weight <
        intake.weight := by
    intro assembly buffer result reading owner ho ht howner
    obtain ⟨hle, hlt⟩ := ht.weight_le assembly.demand_pos ha
    have hhand : ({ intake with pair := { intake.pair with buffer, reading }, owner } :
      Intake).inHand = intake.inHand := rfl
    have hold : intake.owner.weight = 2 := by rw [ho]; rfl
    simp only [weight, hhand, hold]
    by_cases hended : result = .ended
    · rw [if_pos hended] at howner
      omega
    · have := hlt hended
      omega
  cases t with
  | adds ho ht | completes ho ht | meetsEnd ho ht => exact hread _ _ ho ht (by simp [Owner.weight])
  | waits ho ht => exact hread _ intake.owner ho ht (by simp [ho, Owner.weight])
  | tellsFailure ho | tells ho | shuts ho | joins ho =>
    simp [weight, inHand, Owner.weight, ho]
  | releases ho =>
    have hle := intake.pair.buffer.weight_dropReader_le
    simp only [weight, inHand, Owner.weight, ho]
    omega

end Intake

/-! ## Moves that can be made -/

end Transport

/-- What a socket can bring: pieces that fit one read each. -/
def Arrivals.Feasible (script : Arrivals) : Prop :=
  ∀ chunk, .ok chunk ∈ script → chunk.length ≤ Transport.pumpSize

namespace Transport

namespace Intake

variable {intake intake' : Intake} {capacity : Nat}

theorem Sound.exists_ownerTurn (h : intake.Sound capacity) (hidle : intake.owner ≠ .idle)
    (hgone : intake.owner ≠ .gone)
    (hjoin : intake.owner = .joining → intake.pump = .finished) :
    ∃ turn, intake.ownerTurn = some turn := by
  have hfits := h.owner
  unfold Intake.ownerTurn
  cases ho : intake.owner with
  | idle => exact absurd ho hidle
  | reading assembly =>
    rw [ho] at hfits
    rcases hfits with hread | hread
    · simp [hread, Buffer.Pair.step]
    · simp [hread, Buffer.Pair.step]
  | ending told =>
    cases hs : intake.slot with
    | none => exact ⟨_, rfl⟩
    | some failure => exact ⟨_, rfl⟩
  | leaving => exact ⟨_, rfl⟩
  | releasing =>
    rw [ho] at hfits
    have hread : intake.pair.reading = .idle := hfits
    simp [hread, Buffer.Pair.step]
  | joining => simp [hjoin ho]
  | gone => exact absurd ho hgone

theorem Sound.exists_pumpTurn (h : intake.Sound capacity) (hr : intake.pump ≠ .receiving)
    (hf : intake.pump ≠ .finished) : ∃ next, intake.pumpTurn = some next := by
  have hfits := h.pump
  unfold Intake.pumpTurn
  cases hp : intake.pump with
  | receiving => exact absurd hp hr
  | finished => exact absurd hp hf
  | forwarding chunk =>
    rw [hp] at hfits
    have hwrite : intake.pair.writing = .idle := hfits
    simp [hwrite, Buffer.Pair.step]
  | parked =>
    rw [hp] at hfits
    obtain ⟨data, left, hwrite⟩ := hfits
    simp [hwrite, Buffer.Pair.step]
  | reporting failure => exact ⟨_, rfl⟩
  | closing =>
    rw [hp] at hfits
    have hwrite : intake.pair.writing = .idle := hfits
    simp [hwrite, Buffer.Pair.step]

theorem exists_arrive (hp : intake.pump = .receiving) (arrival : Except Failure (List UInt8))
    (hfits : ∀ chunk, arrival = .ok chunk → chunk.length ≤ pumpSize) :
    ∃ next, intake.arrive arrival = some next := by
  simp only [arrive, hp]
  match arrival with
  | .ok [] => exact ⟨_, rfl⟩
  | .ok (byte :: more) => exact ⟨_, if_pos (hfits _ rfl)⟩
  | .error failure => exact ⟨_, rfl⟩

/-- The threads do not wait for each other: a pump that waits for room has an owner that can
make room or let it go. -/
theorem Sound.pump_awake (h : intake.Sound capacity)
    (hw : intake.pair.buffer.reader = .waiting ∨ intake.pair.buffer.readerGone = true) :
    intake.pair.buffer.writer ≠ .waiting := by
  intro hwait
  obtain ⟨hroom, -, halive⟩ := h.coherent.justified.writer hwait
  rcases hw with hreader | hgone
  · have hempty := (h.coherent.justified.reader hreader).1
    have hpos := intake.pair.buffer.ring.capacity_pos
    simp only [Ring.room] at hroom
    omega
  · simp [halive] at hgone

end Intake

/-- A connection with what its socket has still to bring and what its owner has been told. -/
structure Course where
  intake : Intake
  script : Arrivals
  reports : List Report

namespace Course

variable {course next : Course} {capacity : Nat}

/-- A read of the socket comes to its end, or a thread takes its turn that does not wait. Once
the owner has shut the socket down, its reads find the end. -/
inductive Advances : Course → Course → Prop
  | arrive {intake intake' : Intake} {arrival : Except Failure (List UInt8)} {script : Arrivals}
    {reports : List Report} (h : intake.arrive arrival = some intake') :
    Advances ⟨intake, arrival :: script, reports⟩ ⟨intake', script, reports⟩
  | shut {intake intake' : Intake} {script : Arrivals} {reports : List Report}
    (hs : intake.shut = true) (h : intake.arrive (.ok []) = some intake') :
    Advances ⟨intake, script, reports⟩ ⟨intake', script, reports⟩
  | pump {intake intake' : Intake} {script : Arrivals} {reports : List Report}
    (ha : intake.awake .pump = true) (h : intake.pumpTurn = some intake') :
    Advances ⟨intake, script, reports⟩ ⟨intake', script, reports⟩
  | owner {intake intake' : Intake} {script : Arrivals} {reports : List Report}
    {report : Option Report} (ha : intake.awake .owner = true)
    (h : intake.ownerTurn = some (intake', report)) :
    Advances ⟨intake, script, reports⟩ ⟨intake', script, reports ++ report.toList⟩

def weight (course : Course) : Nat :=
  course.intake.weight + (course.script.map arrivalWeight).sum

/-- The threads are sound, and the socket brings what it can. -/
structure Live (capacity : Nat) (course : Course) : Prop where
  sound : course.intake.Sound capacity
  feasible : course.script.Feasible

/-- **Every move makes the connection lighter.** -/
theorem Advances.weight_lt (h : course.Advances next) (hs : course.intake.Sound capacity) :
    next.weight < course.weight := by
  cases h with
  | arrive h =>
    have hlt := (Intake.arrives_of_arrive h).weight_lt
    simp only [weight, List.map_cons, List.sum_cons]
    omega
  | shut _ h => exact Nat.add_lt_add_right (Intake.arrives_of_arrive h).weight_lt_of_nil _
  | pump ha h =>
    have hlt := (Intake.turn_of_pumpTurn h).weight_lt (by simpa [Intake.awake] using ha)
    exact Nat.add_lt_add_right hlt _
  | owner ha h =>
    have hlt := (Intake.turn_of_ownerTurn hs.owner hs.within h).weight_lt
      (by simpa [Intake.awake] using ha)
    exact Nat.add_lt_add_right hlt _

theorem Live.step {intake intake' : Intake} {move : Move} {report : Option Report}
    {script : Arrivals} {past reports : List Report}
    (h : Live capacity ⟨intake, Move.arrivals [move] ++ script, past⟩)
    (hs : intake.step move = some (intake', report)) : Live capacity ⟨intake', script, reports⟩ :=
  ⟨h.sound.step hs, fun chunk hm => h.feasible chunk (List.mem_append_right _ hm)⟩

theorem Live.shut {intake intake' : Intake} {script : Arrivals} {past reports : List Report}
    (h : Live capacity ⟨intake, script, past⟩) (hs : intake.arrive (.ok []) = some intake') :
    Live capacity ⟨intake', script, reports⟩ :=
  ⟨h.sound.arrives (Intake.arrives_of_arrive hs), h.feasible⟩

/-- The script is over, the pump waits for the socket, and the owner for the pump. -/
def Starved (course : Course) : Prop :=
  course.script = [] ∧ course.intake.pump = .receiving ∧
    course.intake.pair.buffer.reader = .waiting

/-- **Somebody can go on.** As long as the owner is busy there is a move, unless there is
nothing left to be brought. -/
theorem Live.exists_advance (h : course.Live capacity) (hidle : course.intake.owner ≠ .idle)
    (hgone : course.intake.owner ≠ .gone) :
    course.Starved ∨ ∃ next, course.Advances next := by
  obtain ⟨intake, script, reports⟩ := course
  -- The pump goes on unless it has finished or waits for the socket in vain.
  have hpump : intake.pump ≠ .finished → intake.pair.buffer.writer ≠ .waiting →
      (script = [] ∧ intake.pump = .receiving) ∨
        ∃ next, Advances ⟨intake, script, reports⟩ next := by
    intro hfin hawake
    by_cases hp : intake.pump = .receiving
    · cases script with
      | nil => exact .inl ⟨rfl, hp⟩
      | cons arrival rest =>
        obtain ⟨next, ha⟩ := Intake.exists_arrive hp arrival fun chunk heq =>
          h.feasible chunk (heq ▸ List.mem_cons_self)
        exact .inr ⟨_, .arrive ha⟩
    · obtain ⟨next, ht⟩ := h.sound.exists_pumpTurn hp hfin
      exact .inr ⟨_, .pump (by simpa [Intake.awake] using hawake) ht⟩
  by_cases hreader : intake.pair.buffer.reader = .waiting
  · have hopen := (h.sound.coherent.justified.reader hreader).2
    have hfin : intake.pump ≠ .finished := by
      intro hfin
      have hclosed : intake.pair.buffer.closed = true := h.sound.closed.mpr hfin
      rw [hopen] at hclosed
      cases hclosed
    rcases hpump hfin (h.sound.pump_awake (.inl hreader)) with ⟨hscript, hp⟩ | hnext
    · exact .inl ⟨hscript, hp, hreader⟩
    · exact .inr hnext
  by_cases hjoin : intake.owner = .joining → intake.pump = .finished
  · obtain ⟨turn, ht⟩ := h.sound.exists_ownerTurn hidle hgone hjoin
    exact .inr ⟨_, .owner (by simpa [Intake.awake] using hreader) ht⟩
  · obtain ⟨ho, hfin⟩ := Classical.not_imp.mp hjoin
    have hfits := h.sound.owner
    rw [ho] at hfits
    rcases hpump hfin (h.sound.pump_awake (.inr (h.sound.coherent.readerGone.mpr hfits))) with
      ⟨-, hp⟩ | hnext
    · have hshut : intake.shut = true := h.sound.shut.mpr (by rw [ho]; trivial)
      obtain ⟨next, ha⟩ := Intake.exists_arrive hp (.ok []) fun chunk heq =>
        Except.ok.inj heq ▸ Nat.zero_le _
      exact .inr ⟨_, .shut hshut ha⟩
    · exact .inr hnext

end Course

/-- As long as the owner is busy, a thread that does not wait can take its turn, or the pump reads
a socket that is shut down or that the owner waits for. -/
theorem Intake.Sound.exists_turn {intake : Intake} {capacity : Nat} (h : intake.Sound capacity)
    (hidle : intake.owner ≠ .idle) (hgone : intake.owner ≠ .gone) :
    intake.pump = .receiving ∧ (intake.shut = true ∨ intake.pair.buffer.reader = .waiting) ∨
      (∃ next, intake.awake .pump = true ∧ intake.pumpTurn = some next) ∨
      ∃ turn, intake.awake .owner = true ∧ intake.ownerTurn = some turn := by
  have hlive : Course.Live capacity ⟨intake, [], []⟩ := ⟨h, nofun⟩
  rcases hlive.exists_advance hidle hgone with ⟨-, hp, hr⟩ | ⟨course, hadvance⟩
  · exact .inl ⟨hp, .inr hr⟩
  · cases hadvance with
    | shut hs harrive =>
      have hp : intake.pump = .receiving := by
        cases Intake.arrives_of_arrive harrive with
        | ended hp | bytes hp => exact hp
      exact .inl ⟨hp, .inl hs⟩
    | pump ha ht => exact .inr (.inl ⟨_, ha, ht⟩)
    | owner ha ht => exact .inr (.inr ⟨_, ha, ht⟩)

end Transport

end Parley
