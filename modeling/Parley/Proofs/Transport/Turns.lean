import Parley.Proofs.Buffer.Waiting
import Parley.Proofs.Transport.Receiver
import Parley.Transport.Intake

/-!
# What the threads of a connection can do

All that is proved of the two threads of a connection rests on a list of their turns, which is
given as an inductive relation for each: what a read of the socket does to the pump
(`Arrives`), the pump's own turns (`PumpTurn`), and the owner's (`OwnerTurn`). A constructor
says when its turn is taken and all that it changes.

**The invariant** (`Sound`). The buffer between the threads is coherent, each handle is doing
what its thread stands at, and the ends come in order: the slot is filled before the buffer is
closed, and the owner meets the end of its stream only when the pump has finished and the
buffer is drained.
-/

namespace Parley.Transport

open Buffer (Pair OfferTurn TakeTurn Writing Reading)
open Parley.Frame (Assembly Outcome Cut)

/-! ## The pump -/

/-- What the writer's handle is doing while the pump stands there. -/
def Pump.Fits : Pump → Writing → Prop
  | parked, handle => handle.InProgress
  | finished, handle => handle = .gone
  | receiving, handle | forwarding _, handle | reporting _, handle | closing, handle =>
    handle = .idle

namespace Intake

variable {intake intake' : Intake} {arrival : Except Failure (List UInt8)}
  {report : Option Report} {capacity : Nat}

/-- What a read of the socket does. -/
inductive Arrives (intake : Intake) : Except Failure (List UInt8) → Intake → Prop
  | ended (h : intake.pump = .receiving) :
    Arrives intake (.ok []) { intake with pump := .closing }
  | bytes {chunk : List UInt8} (h : intake.pump = .receiving) (hne : chunk ≠ [])
      (hle : chunk.length ≤ pumpSize) :
    Arrives intake (.ok chunk) { intake with pump := .forwarding chunk }
  | interrupted {failure : Failure} (h : intake.pump = .receiving)
      (hk : failure.kind = .interrupted) : Arrives intake (.error failure) intake
  | failed {failure : Failure} (h : intake.pump = .receiving)
      (hk : failure.kind ≠ .interrupted) :
    Arrives intake (.error failure) { intake with pump := .reporting failure }

/-- **What arrives is one of these.** -/
theorem arrives_of_arrive (h : intake.arrive arrival = some intake') :
    intake.Arrives arrival intake' := by
  unfold arrive at h
  split at h
  · next hp => cases h; exact .ended hp
  · next chunk hne hp =>
    split at h
    · next hle => cases h; exact .bytes hp hne hle
    · cases h
  · next failure hp =>
    split at h
    · next hk => cases h; exact .interrupted hp hk
    · next hk => cases h; exact .failed hp hk
  · cases h

/-- The pump can take a turn with `left` of `data` still to write. -/
inductive Forwards (intake : Intake) : (data left : List UInt8) → Prop
  | start {data : List UInt8} (hp : intake.pump = .forwarding data)
      (hw : intake.pair.writing = .idle) : Forwards intake data data
  | resume {data left : List UInt8} (hp : intake.pump = .parked)
      (hw : intake.pair.writing = .waiting data left) : Forwards intake data left

theorem Forwards.writes {data left : List UInt8} (h : intake.Forwards data left) :
    intake.pair.Writes data left := by
  cases h with
  | start _ hw => exact .start data hw
  | resume _ hw => exact .resume hw

/-- The turns of the pump outside of the socket. -/
inductive PumpTurn (intake : Intake) : Intake → Prop
  | wrote {data left : List UInt8} {buffer : Buffer} (hf : intake.Forwards data left)
      (ht : OfferTurn intake.pair.buffer left buffer .accepted) :
    PumpTurn intake { intake with
      pair := { intake.pair with buffer, writing := .idle }, pump := .receiving }
  | refused {data left rest : List UInt8} {buffer : Buffer} {error : BufferError}
      (hf : intake.Forwards data left)
      (ht : OfferTurn intake.pair.buffer left buffer (.refused error rest)) :
    PumpTurn intake { intake with
      pair := { intake.pair with buffer, writing := .idle }, pump := .closing }
  | waits {data left rest : List UInt8} {buffer : Buffer} (hf : intake.Forwards data left)
      (ht : OfferTurn intake.pair.buffer left buffer (.waiting rest)) :
    PumpTurn intake { intake with
      pair := { intake.pair with buffer, writing := .waiting data rest }, pump := .parked }
  | reports {failure : Failure} (hp : intake.pump = .reporting failure) :
    PumpTurn intake { intake with slot := some failure, pump := .closing }
  | closes (hp : intake.pump = .closing) (hw : intake.pair.writing = .idle) :
    PumpTurn intake { intake with
      pair := { intake.pair with buffer := intake.pair.buffer.close, writing := .gone }
      pump := .finished }

theorem pumpTurn_writeTurn {data left : List UInt8} (hf : intake.Forwards data left) :
    intake.PumpTurn { intake with
      pair := (intake.pair.writeTurn data left).1
      pump := .afterWrite (intake.pair.writeTurn data left).2 } := by
  have ht := Buffer.offer_turn intake.pair.buffer left
  simp only [Pair.writeTurn]
  split
  · next heq => rw [heq] at ht; exact .wrote hf ht
  · next heq => rw [heq] at ht; exact .refused hf ht
  · next heq => rw [heq] at ht; exact .waits hf ht

/-- **The pump's turns are these.** -/
theorem turn_of_pumpTurn (h : intake.pumpTurn = some intake') : intake.PumpTurn intake' := by
  unfold pumpTurn at h
  split at h
  · next chunk hp =>
    simp only [Pair.step] at h
    split at h
    · next hw => cases h; exact pumpTurn_writeTurn (.start hp hw)
    · cases h
  · next hp =>
    simp only [Pair.step] at h
    split at h
    · next hw => cases h; exact pumpTurn_writeTurn (.resume hp hw)
    · cases h
  · next hp => cases h; exact .reports hp
  · next hp =>
    simp only [Pair.step] at h
    split at h
    · next hw => cases h; exact .closes hp hw
    · cases h
  · cases h
  · cases h

end Intake

/-! ## The owner -/

/-- What the reader's handle is doing while the owner stands there. -/
def Owner.Fits : Owner → Reading → Prop
  | reading assembly, handle => handle = .idle ∨ handle = .waiting assembly.demand
  | joining, handle | gone, handle => handle = .gone
  | idle, handle | ending _, handle | leaving, handle | releasing, handle => handle = .idle

/-- The owner's stream has ended, and it has still to tell how. -/
def Owner.IsEnding : Owner → Prop
  | ending _ => True
  | idle | reading _ | leaving | releasing | joining | gone => False

/-- The owner is in the middle of a read. -/
def Owner.Wants : Owner → Prop
  | reading _ | ending _ => True
  | idle | leaving | releasing | joining | gone => False

/-- The owner gives the connection up and is not through with it. -/
def Owner.Leaves : Owner → Prop
  | leaving | releasing | joining => True
  | idle | reading _ | ending _ | gone => False

/-- The owner has shut the socket down. -/
def Owner.HasShut : Owner → Prop
  | releasing | joining | gone => True
  | idle | reading _ | ending _ | leaving => False

theorem Owner.Wants.busy {owner : Owner} (h : owner.Wants) : owner ≠ .idle ∧ owner ≠ .gone := by
  cases owner with
  | reading | ending => exact ⟨nofun, nofun⟩
  | idle | leaving | releasing | joining | gone => cases h

theorem Owner.Leaves.busy {owner : Owner} (h : owner.Leaves) :
    owner ≠ .idle ∧ owner ≠ .gone := by
  cases owner with
  | leaving | releasing | joining => exact ⟨nofun, nofun⟩
  | idle | reading | ending | gone => cases h

theorem Owner.Wants.not_leaves {owner : Owner} (h : owner.Wants) : ¬owner.Leaves := by
  cases owner with
  | reading | ending => exact id
  | idle | leaving | releasing | joining | gone => exact False.elim h

theorem Owner.Wants.not_hasShut {owner : Owner} (h : owner.Wants) : ¬owner.HasShut := by
  cases owner with
  | reading | ending => exact id
  | idle | leaving | releasing | joining | gone => exact False.elim h

namespace Intake

variable {intake intake' : Intake} {arrival : Except Failure (List UInt8)}
  {report : Option Report} {capacity : Nat}

/-- The owner's turns. A piece that its read brings is added to the frame at hand or completes
it; the end of its stream breaks this frame off. -/
inductive OwnerTurn (intake : Intake) : Intake → Option Report → Prop
  | adds {assembly next : Assembly} {bytes : List UInt8} {buffer : Buffer}
      (ho : intake.owner = .reading assembly)
      (ht : TakeTurn intake.pair.buffer assembly.demand buffer (.bytes bytes))
      (hw : next.Within intake.max) (hb : next.bytes = assembly.bytes ++ bytes) :
    OwnerTurn intake { intake with
      pair := { intake.pair with buffer, reading := .idle }, owner := .reading next } none
  | completes {assembly : Assembly} {bytes : List UInt8} {buffer : Buffer} {outcome : Outcome}
      (ho : intake.owner = .reading assembly)
      (ht : TakeTurn intake.pair.buffer assembly.demand buffer (.bytes bytes))
      (hend : ¬outcome.IsEnd) (hcut : Cut intake.max (assembly.bytes ++ bytes) outcome []) :
    OwnerTurn intake { intake with
      pair := { intake.pair with buffer, reading := .idle }, owner := .idle }
      (some (.ofOutcome outcome))
  | meetsEnd {assembly : Assembly} {buffer : Buffer} {outcome : Outcome}
      (ho : intake.owner = .reading assembly)
      (ht : TakeTurn intake.pair.buffer assembly.demand buffer .ended)
      (hend : outcome.IsEnd) (hcut : Cut intake.max assembly.bytes outcome []) :
    OwnerTurn intake { intake with
      pair := { intake.pair with buffer, reading := .idle }
      owner := .ending (.ofOutcome outcome) } none
  | waits {assembly : Assembly} {buffer : Buffer} (ho : intake.owner = .reading assembly)
      (ht : TakeTurn intake.pair.buffer assembly.demand buffer .waiting) :
    OwnerTurn intake { intake with
      pair := { intake.pair with buffer, reading := .waiting assembly.demand } } none
  | tellsFailure {told : Report} {failure : Failure} (ho : intake.owner = .ending told)
      (hs : intake.slot = some failure) :
    OwnerTurn intake { intake with slot := none, owner := .idle }
      (some (.error (.failed failure)))
  | tells {told : Report} (ho : intake.owner = .ending told) (hs : intake.slot = none) :
    OwnerTurn intake { intake with owner := .idle } (some told)
  | shuts (ho : intake.owner = .leaving) :
    OwnerTurn intake { intake with shut := true, owner := .releasing } none
  | releases (ho : intake.owner = .releasing) (hr : intake.pair.reading = .idle) :
    OwnerTurn intake { intake with
      pair := { intake.pair with buffer := intake.pair.buffer.dropReader, reading := .gone }
      owner := .joining } none
  | joins (ho : intake.owner = .joining) (hp : intake.pump = .finished) :
    OwnerTurn intake { intake with owner := .gone } none

/-- What an owner without a report goes on with, and when it has one. -/
theorem OwnerTurn.owner {intake intake' : Intake} {report : Option Report}
    (t : intake.OwnerTurn intake' report) :
    (intake.owner.Wants ∧
        (report = none ∧ intake'.owner.Wants ∨ report ≠ none ∧ intake'.owner = .idle)) ∨
      intake.owner.Leaves ∧ report = none ∧ (intake'.owner.Leaves ∨ intake'.owner = .gone) := by
  cases t with
  | adds ho | meetsEnd ho => exact .inl ⟨by rw [ho]; trivial, .inl ⟨rfl, trivial⟩⟩
  | waits ho => exact .inl ⟨by rw [ho]; trivial, .inl ⟨rfl, by rw [ho]; trivial⟩⟩
  | completes ho | tellsFailure ho | tells ho =>
    exact .inl ⟨by rw [ho]; trivial, .inr ⟨nofun, rfl⟩⟩
  | shuts ho | releases ho => exact .inr ⟨by rw [ho]; trivial, rfl, .inl trivial⟩
  | joins ho => exact .inr ⟨by rw [ho]; trivial, rfl, .inr rfl⟩

theorem conclude_of_isEnd {outcome : Outcome} (h : outcome.IsEnd) :
    intake.conclude outcome = ({ intake with owner := .ending (.ofOutcome outcome) }, none) := by
  cases outcome with
  | body => cases h
  | ended => rfl
  | error error =>
    cases error with
    | truncated => rfl
    | tooLarge | failed => cases h

theorem conclude_of_not_isEnd {outcome : Outcome} (h : ¬outcome.IsEnd) :
    intake.conclude outcome = ({ intake with owner := .idle }, some (.ofOutcome outcome)) := by
  cases outcome with
  | body => rfl
  | ended => exact absurd trivial h
  | error error =>
    cases error with
    | truncated => exact absurd trivial h
    | tooLarge | failed => rfl

theorem ownerTurn_readTurn {assembly : Assembly} (ho : intake.owner = .reading assembly)
    (hw : assembly.Within intake.max) {next : Intake}
    (h : ({ intake with pair := (intake.pair.readTurn assembly.demand).1 } : Intake).tell assembly
      (intake.pair.readTurn assembly.demand).2 = (next, report)) :
    intake.OwnerTurn next report := by
  have ht := Buffer.take_turn intake.pair.buffer assembly.demand
  simp only [Pair.readTurn] at h
  split at h
  · next buffer bytes heq =>
    rw [heq] at ht
    -- The owner always wants a byte, so its read brings one.
    have hpiece : bytes ≠ [] ∧ bytes.length ≤ assembly.demand := by
      cases ht with
      | nothing hn => exact absurd hn (Nat.ne_of_gt assembly.demand_pos)
      | some hn hs =>
        have hpos : 0 < intake.pair.buffer.contents.length := by
          rw [Buffer.contents, Ring.length_contents]
          omega
        rw [← List.length_pos_iff, List.length_take]
        omega
    simp only [tell, Option.getD_some] at h
    rcases Assembly.receive_piece hw hpiece.1 hpiece.2 with
      ⟨grown, hrec, hwithin, hbytes⟩ | ⟨outcome, hrec, hend, hcut⟩
    · rw [hrec] at h
      cases h
      exact .adds ho ht hwithin hbytes
    · rw [hrec] at h
      simp only [conclude_of_not_isEnd hend] at h
      cases h
      exact .completes ho ht hend hcut
  · next buffer heq =>
    rw [heq] at ht
    obtain ⟨outcome, hend, hcut, hrec⟩ := Assembly.cut_bytes hw
    simp only [tell, Option.getD_none, hrec, conclude_of_isEnd hend] at h
    cases h
    exact .meetsEnd ho ht hend hcut
  · next buffer heq =>
    rw [heq] at ht
    cases h
    exact .waits ho ht

/-- **The owner's turns are these**, as long as its handle does what it stands at. -/
theorem turn_of_ownerTurn (hf : intake.owner.Fits intake.pair.reading)
    (hw : ∀ assembly, intake.owner = .reading assembly → assembly.Within intake.max)
    (h : intake.ownerTurn = some (intake', report)) : intake.OwnerTurn intake' report := by
  unfold ownerTurn at h
  split at h
  · next assembly ho =>
    rw [ho] at hf
    rcases hf with hidle | hwait
    · simp only [hidle, Pair.step, Option.bind_eq_bind, Option.bind_some] at h
      exact ownerTurn_readTurn ho (hw assembly ho) (Option.some.inj h)
    · simp only [hwait, Pair.step, Option.bind_eq_bind, Option.bind_some] at h
      exact ownerTurn_readTurn ho (hw assembly ho) (Option.some.inj h)
  · next told ho =>
    split at h
    · next hs => cases h; exact .tellsFailure ho hs
    · next hs => cases h; exact .tells ho hs
  · next ho => cases h; exact .shuts ho
  · next ho =>
    simp only [Pair.step] at h
    split at h
    · next hr => cases h; exact .releases ho hr
    · cases h
  · next ho =>
    split at h
    · next hp => cases h; exact .joins ho hp
    · cases h
  · cases h
  · cases h

/-! ## Both threads -/

/-- The two threads agree with what is between them. -/
structure Sound (capacity : Nat) (intake : Intake) : Prop where
  coherent : intake.pair.Coherent capacity
  pump : intake.pump.Fits intake.pair.writing
  owner : intake.owner.Fits intake.pair.reading
  closed : intake.pair.buffer.closed = true ↔ intake.pump = .finished
  slot : intake.slot ≠ none → intake.pump = .closing ∨ intake.pump = .finished
  within : ∀ assembly, intake.owner = .reading assembly → assembly.Within intake.max
  drained : intake.owner.IsEnding →
    intake.pump = .finished ∧ intake.pair.buffer.ring.size = 0
  shut : intake.shut = true ↔ intake.owner.HasShut

theorem sound_ofConfig? {config : Config} (h : ofConfig? config = some intake) :
    intake.Sound config.bufferCapacity := by
  simp only [ofConfig?, Pair.ofCapacity?, Buffer.ofCapacity?] at h
  split at h
  · next hpos =>
    cases h
    exact {
      coherent := Pair.coherent_start hpos
      pump := rfl
      owner := rfl
      closed := by simp
      slot := by simp
      within := fun assembly ho => by cases ho
      drained := False.elim
      shut := iff_of_false Bool.false_ne_true id }
  · cases h

/-- A pump that has not finished has not met the owner's end of the stream. -/
theorem Sound.not_isEnding (h : intake.Sound capacity) (hp : intake.pump ≠ .finished) :
    ¬intake.owner.IsEnding := fun ho => hp (h.drained ho).1

/-- As long as the pump has not come to the slot, it is empty. -/
theorem Sound.slot_eq_none (h : intake.Sound capacity)
    (hp : ¬(intake.pump = .closing ∨ intake.pump = .finished)) : intake.slot = none :=
  Classical.byContradiction fun hs => hp (h.slot hs)

theorem Sound.reading_of_waiting (h : intake.Sound capacity)
    (hr : intake.pair.buffer.reader = .waiting) :
    ∃ assembly, intake.owner = .reading assembly := by
  have hprogress : intake.pair.reading.InProgress :=
    Classical.byContradiction fun hn => by simp [h.coherent.reader.mpr hn] at hr
  obtain ⟨n, hwait⟩ := hprogress
  have hfits := h.owner
  rw [hwait] at hfits
  cases ho : intake.owner with
  | reading assembly => exact ⟨assembly, rfl⟩
  | idle | ending | leaving | releasing | joining | gone => rw [ho] at hfits; cases hfits

theorem Sound.arrives (h : intake.Sound capacity) (ha : intake.Arrives arrival intake') :
    intake'.Sound capacity := by
  -- The pump goes on from its read of the socket to a place where its handle is idle, too.
  have hgo : ∀ pump : Pump, intake.pump = .receiving → pump ≠ .finished →
      pump.Fits intake.pair.writing → ({ intake with pump } : Intake).Sound capacity := by
    intro pump hp hne hfits
    have hslot : intake.slot = none := h.slot_eq_none (by simp [hp])
    exact {
      coherent := h.coherent
      pump := hfits
      owner := h.owner
      closed := by
        refine h.closed.trans ?_
        simp [hp, hne]
      slot := fun hs => absurd hslot hs
      within := h.within
      drained := fun ho => absurd ho (h.not_isEnding (by simp [hp]))
      shut := h.shut }
  have hidle : intake.pump = .receiving → intake.pair.writing = .idle := by
    intro hp
    have hfits := h.pump
    rwa [hp] at hfits
  cases ha with
  | ended hp => exact hgo _ hp nofun (hidle hp)
  | bytes hp => exact hgo _ hp nofun (hidle hp)
  | interrupted => exact h
  | failed hp => exact hgo _ hp nofun (hidle hp)

theorem Forwards.underWay {data left : List UInt8} (h : intake.Forwards data left) :
    ¬(intake.pump = .closing ∨ intake.pump = .finished) := by
  cases h with
  | start hp | resume hp => simp [hp]

theorem Sound.writeTurn (h : intake.Sound capacity) {data left : List UInt8} {buffer : Buffer}
    {writing : Writing} {events : List Buffer.Event} {pump : Pump} {result : Offered}
    (hf : intake.Forwards data left)
    (ht : OfferTurn intake.pair.buffer left buffer result)
    (t : intake.pair.Turn { intake.pair with buffer, writing } events)
    (hp : pump.Fits writing) (hne : pump ≠ .finished) :
    ({ intake with pair := { intake.pair with buffer, writing }, pump } : Intake).Sound capacity
    where
  coherent := h.coherent.turn t
  pump := hp
  owner := h.owner
  closed := by
    have hopen : intake.pump ≠ .finished := fun hfin => hf.underWay (.inr hfin)
    simp only [ht.flags.1, h.closed, hopen, hne]
  slot := fun hs => absurd (h.slot_eq_none hf.underWay) hs
  within := h.within
  drained := fun ho => absurd ho (h.not_isEnding fun hfin => hf.underWay (.inr hfin))
  shut := h.shut

theorem Sound.pumpTurn (h : intake.Sound capacity) (t : intake.PumpTurn intake') :
    intake'.Sound capacity := by
  cases t with
  | wrote hf ht => exact h.writeTurn hf ht (.wrote hf.writes ht) rfl nofun
  | refused hf ht => exact h.writeTurn hf ht (.refused hf.writes ht) rfl nofun
  | waits hf ht => exact h.writeTurn hf ht (.writeWaits hf.writes ht) ⟨_, _, rfl⟩ nofun
  | reports hp =>
    have hfits := h.pump
    rw [hp] at hfits
    exact {
      coherent := h.coherent
      pump := hfits
      owner := h.owner
      closed := h.closed.trans (by simp [hp])
      slot := fun _ => .inl rfl
      within := h.within
      drained := fun ho => absurd ho (h.not_isEnding (by simp [hp]))
      shut := h.shut }
  | closes hp hw =>
    obtain ⟨-, hclosed, -, -, -⟩ := Buffer.close_frame intake.pair.buffer
    exact {
      coherent := h.coherent.turn (.dropWriter hw)
      pump := rfl
      owner := h.owner
      closed := iff_of_true hclosed rfl
      slot := fun _ => .inr rfl
      within := h.within
      drained := fun ho => absurd ho (h.not_isEnding (by simp [hp]))
      shut := h.shut }

theorem Sound.reads (h : intake.Sound capacity) {assembly : Assembly}
    (ho : intake.owner = .reading assembly) : intake.pair.Reads assembly.demand := by
  have hfits := h.owner
  rw [ho] at hfits
  rcases hfits with hidle | hwait
  · exact .start hidle
  · exact .resume hwait

theorem Sound.readTurn (h : intake.Sound capacity) {n : Nat} {buffer : Buffer}
    {reading : Reading} {events : List Buffer.Event} {owner : Owner} {result : Taken}
    (ht : TakeTurn intake.pair.buffer n buffer result)
    (t : intake.pair.Turn { intake.pair with buffer, reading } events)
    (ho : owner.Fits reading)
    (hw : ∀ assembly, owner = .reading assembly → assembly.Within intake.max)
    (hd : owner.IsEnding → intake.pump = .finished ∧ buffer.ring.size = 0)
    (hn : owner.HasShut ↔ intake.owner.HasShut) :
    ({ intake with pair := { intake.pair with buffer, reading }, owner } : Intake).Sound capacity
    where
  coherent := h.coherent.turn t
  pump := h.pump
  owner := ho
  closed := by rw [← h.closed, ← ht.flags.1]
  slot := h.slot
  within := hw
  drained := hd
  shut := h.shut.trans hn.symm

theorem Sound.goes (h : intake.Sound capacity) {owner : Owner} (slot : Option Failure)
    (shut : Bool) (hs : slot = intake.slot ∨ slot = none) (ho : owner.Fits intake.pair.reading)
    (hw : ∀ assembly, owner = .reading assembly → assembly.Within intake.max)
    (hd : ¬owner.IsEnding) (hshut : shut = true ↔ owner.HasShut) :
    ({ intake with slot, owner, shut } : Intake).Sound capacity where
  coherent := h.coherent
  pump := h.pump
  owner := ho
  closed := h.closed
  slot := by
    intro hne
    rcases hs with hs | hs
    · exact h.slot (hs ▸ hne)
    · exact absurd hs hne
  within := hw
  drained := fun he => absurd he hd
  shut := hshut

theorem Sound.ownerTurn (h : intake.Sound capacity) (t : intake.OwnerTurn intake' report) :
    intake'.Sound capacity := by
  have hfits := h.owner
  cases t with
  | adds ho ht hw =>
    refine h.readTurn ht (.read (h.reads ho) ht) (.inl rfl) ?_ False.elim (by rw [ho]; rfl)
    intro assembly heq
    cases heq
    exact hw
  | completes ho ht =>
    exact h.readTurn ht (.read (h.reads ho) ht) rfl nofun False.elim (by rw [ho]; rfl)
  | meetsEnd ho ht =>
    refine h.readTurn ht (.readEnded (h.reads ho) ht) rfl nofun (fun _ => ?_) (by rw [ho]; rfl)
    cases ht with
    | ended _ he hc => exact ⟨h.closed.mp hc, he⟩
  | waits ho ht =>
    refine h.readTurn ht (.readWaits (h.reads ho) ht) ?_ h.within ?_ .rfl
    · rw [ho]
      exact .inr rfl
    · rw [ho]
      exact False.elim
  | tellsFailure ho =>
    rw [ho] at hfits
    exact h.goes none intake.shut (.inr rfl) hfits nofun id (h.shut.trans (by rw [ho]; rfl))
  | tells ho =>
    rw [ho] at hfits
    exact h.goes intake.slot intake.shut (.inl rfl) hfits nofun id (h.shut.trans (by rw [ho]; rfl))
  | shuts ho =>
    rw [ho] at hfits
    exact h.goes intake.slot true (.inl rfl) hfits nofun id (iff_of_true rfl trivial)
  | releases ho hr =>
    exact {
      coherent := h.coherent.turn (.dropReader hr)
      pump := h.pump
      owner := rfl
      closed := h.closed
      slot := h.slot
      within := nofun
      drained := False.elim
      shut := h.shut.trans (by rw [ho]; rfl) }
  | joins ho =>
    rw [ho] at hfits
    exact h.goes intake.slot intake.shut (.inl rfl) hfits nofun id (h.shut.trans (by rw [ho]; rfl))

theorem Sound.read (h : intake.Sound capacity) (ho : intake.owner = .idle) :
    ({ intake with owner := .reading .start } : Intake).Sound capacity := by
  have hfits := h.owner
  rw [ho] at hfits
  refine h.goes intake.slot intake.shut (.inl rfl) (.inl hfits) ?_ id
    (h.shut.trans (by rw [ho]; rfl))
  intro assembly heq
  cases heq
  exact Assembly.within_start

theorem Sound.leave (h : intake.Sound capacity) (ho : intake.owner = .idle) :
    ({ intake with owner := .leaving } : Intake).Sound capacity := by
  have hfits := h.owner
  rw [ho] at hfits
  exact h.goes intake.slot intake.shut (.inl rfl) hfits nofun id (h.shut.trans (by rw [ho]; rfl))

/-- What the moves do. -/
inductive Turn (intake : Intake) : Move → Intake → Option Report → Prop
  | arrives {arrival : Except Failure (List UInt8)} {intake' : Intake}
      (h : intake.Arrives arrival intake') : Turn intake (.arrive arrival) intake' none
  | pump {intake' : Intake} (h : intake.PumpTurn intake') : Turn intake .pump intake' none
  | owner {intake' : Intake} {report : Option Report} (h : intake.OwnerTurn intake' report) :
    Turn intake .owner intake' report
  | read (ho : intake.owner = .idle) :
    Turn intake .read { intake with owner := .reading .start } none
  | leave (ho : intake.owner = .idle) :
    Turn intake .leave { intake with owner := .leaving } none

theorem step_arrive (h : intake.arrive arrival = some intake') :
    intake.step (.arrive arrival) = some (intake', none) := by
  rw [step, h]
  rfl

theorem step_pump (h : intake.pumpTurn = some intake') :
    intake.step .pump = some (intake', none) := by
  rw [step, h]
  rfl

theorem Sound.turn_of_step {move : Move} (h : intake.Sound capacity)
    (hs : intake.step move = some (intake', report)) : intake.Turn move intake' report := by
  cases move with
  | arrive arrival =>
    obtain ⟨next, ha, heq⟩ := Option.map_eq_some_iff.mp hs
    cases heq
    exact .arrives (arrives_of_arrive ha)
  | pump =>
    obtain ⟨next, ht, heq⟩ := Option.map_eq_some_iff.mp hs
    cases heq
    exact .pump (turn_of_pumpTurn ht)
  | owner => exact .owner (turn_of_ownerTurn h.owner h.within hs)
  | read =>
    simp only [Intake.step] at hs
    split at hs
    · next ho => cases hs; exact .read ho
    · cases hs
  | leave =>
    simp only [Intake.step] at hs
    split at hs
    · next ho => cases hs; exact .leave ho
    · cases hs

/-- **Every move keeps the invariant.** -/
theorem Sound.step {move : Move} (h : intake.Sound capacity)
    (hs : intake.step move = some (intake', report)) : intake'.Sound capacity := by
  cases h.turn_of_step hs with
  | arrives ha => exact h.arrives ha
  | pump ht => exact h.pumpTurn ht
  | owner ht => exact h.ownerTurn ht
  | read ho => exact h.read ho
  | leave ho => exact h.leave ho

theorem Sound.step_max {move : Move} (h : intake.Sound capacity)
    (hs : intake.step move = some (intake', report)) : intake'.max = intake.max := by
  cases h.turn_of_step hs with
  | arrives ha => cases ha <;> rfl
  | pump ht => cases ht <;> rfl
  | owner ht => cases ht <;> rfl
  | read | leave => rfl

theorem run_step {P : Intake → List Move → Prop}
    (hstep : ∀ {intake past move intake' report}, P intake past →
      intake.step move = some (intake', report) → P intake' (past ++ [move]))
    (past : List Move) {moves : List Move} {reports : List Report} (h : P intake past)
    (hrun : intake.run moves = some (intake', reports)) : P intake' (past ++ moves) := by
  induction moves generalizing intake past reports with
  | nil =>
    cases hrun
    rwa [List.append_nil]
  | cons move moves ih =>
    simp only [Intake.run, Option.bind_eq_bind, Option.bind_eq_some_iff, Option.pure_def,
      Option.some.injEq] at hrun
    obtain ⟨⟨mid, report⟩, hmove, ⟨last, more⟩, hrest, heq⟩ := hrun
    cases heq
    rw [List.append_cons]
    exact ih _ (hstep h hmove) hrest

end Intake

end Parley.Transport
