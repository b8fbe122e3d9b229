import Parley.Proofs.Buffer.Turns

/-!
# No wake-up is lost

A party that waits relies on the other one to notify it. It would wait forever if what it
waits for came about without a notification. This never happens: whoever waits and has not
been notified still has a reason to.

**The invariant** (`Coherent`). A writer waits for room only at a full, open buffer with its
reader alive, a reader waits for bytes only at an empty, open one (`Justified`). A turn that
takes the reason of a party away notifies this party, whichever of the two conditions it
waits in; and a turn that ends with a wait has just checked the reason under the same lock.
The rest of the invariant ties the stances and flags of the buffer to what the handles are
doing. It is needed where a turn notifies nobody: a close leaves the writer alone, because
only an idle writer closes.

**Theorem (`no_lost_wakeup`).** After every run, whatever the order of the turns and however
often a party woke up without cause, waiting parties have their reasons, the two never both
wait, and an operation whose reason to wait is gone has been notified by the step that took the
reason away.
-/

namespace Parley

@[simp] theorem Stance.notify_ne_waiting (stance : Stance) : stance.notify ≠ .waiting := by
  cases stance <;> simp [notify]

@[simp] theorem Stance.notify_eq_running {stance : Stance} :
    stance.notify = .running ↔ stance = .running := by
  cases stance <;> simp [notify]

theorem Ring.room_push (ring : Ring) (bytes : List UInt8) :
    (ring.push bytes).1.room = ring.room - bytes.length := by
  have hsize := ring.size_le_capacity
  simp only [room, capacity_push, size_push]
  omega

/-- How a turn leaves its writer. -/
def Offered.stance : Offered → Stance
  | accepted | refused _ _ => .running
  | waiting _ => .waiting

/-- How a turn leaves its reader. -/
def Taken.stance : Taken → Stance
  | bytes _ | ended => .running
  | waiting => .waiting

namespace Buffer

variable {buffer buffer' : Buffer} {bytes : List UInt8} {n : Nat}

/-! ## What a turn leaves as it is -/

theorem OfferTurn.writer {result : Offered} (t : OfferTurn buffer bytes buffer' result) :
    buffer'.writer = result.stance := by
  cases t <;> rfl

theorem OfferTurn.reader_running {result : Offered}
    (t : OfferTurn buffer bytes buffer' result) :
    buffer'.reader = .running ↔ buffer.reader = .running := by
  cases t <;> simp

theorem OfferTurn.flags {result : Offered} (t : OfferTurn buffer bytes buffer' result) :
    buffer'.closed = buffer.closed ∧ buffer'.readerGone = buffer.readerGone := by
  cases t <;> exact ⟨rfl, rfl⟩

theorem OfferTurn.capacity {result : Offered} (t : OfferTurn buffer bytes buffer' result) :
    buffer'.ring.capacity = buffer.ring.capacity := by
  cases t <;> simp

theorem TakeTurn.reader {result : Taken} (t : TakeTurn buffer n buffer' result) :
    buffer'.reader = result.stance := by
  cases t <;> rfl

theorem TakeTurn.writer_running {result : Taken} (t : TakeTurn buffer n buffer' result) :
    buffer'.writer = .running ↔ buffer.writer = .running := by
  cases t <;> simp

theorem TakeTurn.flags {result : Taken} (t : TakeTurn buffer n buffer' result) :
    buffer'.closed = buffer.closed ∧ buffer'.readerGone = buffer.readerGone := by
  cases t <;> exact ⟨rfl, rfl⟩

theorem TakeTurn.capacity {result : Taken} (t : TakeTurn buffer n buffer' result) :
    buffer'.ring.capacity = buffer.ring.capacity := by
  cases t <;> simp

theorem close_frame (buffer : Buffer) :
    buffer.close.ring = buffer.ring ∧ buffer.close.closed = true ∧
      buffer.close.readerGone = buffer.readerGone ∧ buffer.close.writer = buffer.writer ∧
      (buffer.close.reader = .running ↔ buffer.reader = .running) := by
  unfold close
  split
  · next hc => exact ⟨rfl, hc, rfl, rfl, Iff.rfl⟩
  · exact ⟨rfl, rfl, rfl, rfl, Stance.notify_eq_running⟩

/-! ## Reasons to wait -/

/-- Who waits has a reason to. -/
structure Justified (buffer : Buffer) : Prop where
  writer : buffer.writer = .waiting →
    buffer.ring.room = 0 ∧ buffer.closed = false ∧ buffer.readerGone = false
  reader : buffer.reader = .waiting → buffer.ring.size = 0 ∧ buffer.closed = false

theorem OfferTurn.justified {result : Offered} (t : OfferTurn buffer bytes buffer' result)
    (h : buffer.Justified) : buffer'.Justified := by
  cases t with
  | nothing | closed | readerGone => exact { writer := nofun, reader := h.reader }
  | full _ ho ha hr => exact { writer := fun _ => ⟨hr, ho, ha⟩, reader := h.reader }
  | whole => exact { writer := nofun, reader := fun hw => absurd hw (by simp) }
  | part ho ha _ hr =>
    have hfull : (buffer.ring.push bytes).1.room = 0 := by
      rw [Ring.room_push]
      omega
    exact { writer := fun _ => ⟨hfull, ho, ha⟩, reader := fun hw => absurd hw (by simp) }

theorem TakeTurn.justified {result : Taken} (t : TakeTurn buffer n buffer' result)
    (h : buffer.Justified) : buffer'.Justified := by
  cases t with
  | nothing | ended => exact { writer := h.writer, reader := nofun }
  | empty _ he ho => exact { writer := h.writer, reader := fun _ => ⟨he, ho⟩ }
  | some => exact { writer := fun hw => absurd hw (by simp), reader := nofun }

/-- A close does not notify the writer, so it must not be the writer's turn to wait. -/
theorem justified_close (h : buffer.Justified) (hw : buffer.writer ≠ .waiting) :
    buffer.close.Justified := by
  unfold close
  split
  · exact h
  · exact { writer := fun hw' => absurd hw' hw, reader := fun hr => absurd hr (by simp) }

theorem justified_dropReader (h : buffer.Justified) : buffer.dropReader.Justified where
  writer := fun hw => absurd hw (by simp [dropReader])
  reader := h.reader

/-! ## Handles and stances -/

/-- A write waits for room, notified or not. -/
def Writing.InProgress (writing : Writing) : Prop := ∃ data left, writing = .waiting data left

theorem Writing.inProgress_waiting (data left : List UInt8) :
    (Writing.waiting data left).InProgress :=
  ⟨data, left, rfl⟩

/-- A read waits for bytes, notified or not. -/
def Reading.InProgress (reading : Reading) : Prop := ∃ n, reading = .waiting n

/-- What the buffer records of its parties agrees with what their handles are doing. -/
structure Pair.Coherent (capacity : Nat) (pair : Pair) : Prop where
  capacity : pair.buffer.ring.capacity = capacity
  justified : pair.buffer.Justified
  writer : pair.buffer.writer = .running ↔ ¬pair.writing.InProgress
  reader : pair.buffer.reader = .running ↔ ¬pair.reading.InProgress
  opened : pair.writing.InProgress → pair.buffer.closed = false
  readerGone : pair.buffer.readerGone = true ↔ pair.reading = .gone

theorem Pair.coherent_start {capacity : Nat} (h : 0 < capacity) :
    Pair.Coherent capacity { buffer := { ring := .empty capacity h } } where
  capacity := by simp
  justified := { writer := nofun, reader := nofun }
  writer := by simp [Writing.InProgress]
  reader := by simp [Reading.InProgress]
  opened := by simp [Writing.InProgress]
  readerGone := by simp

theorem Pair.Coherent.alive {capacity : Nat} {pair : Pair} (h : pair.Coherent capacity) {n : Nat}
    (hr : pair.Reads n) : pair.buffer.readerGone = false := by
  rw [← Bool.not_eq_true, h.readerGone]
  cases hr with
  | start hr | resume hr => simp [hr]

theorem Pair.Coherent.starts {capacity : Nat} {pair : Pair} {data left : List UInt8}
    (h : pair.Coherent capacity) (hc : pair.buffer.closed = true) (hw : pair.Writes data left) :
    pair.writing = .idle ∧ data = left := by
  cases hw with
  | start hidle => exact ⟨hidle, rfl⟩
  | resume hwait =>
    have hopen := h.opened ⟨_, _, hwait⟩
    simp [hc] at hopen

/-- **Every turn keeps the invariant.** -/
theorem Pair.Coherent.turn {capacity : Nat} {pair pair' : Pair} {events : List Event}
    (h : pair.Coherent capacity) (t : pair.Turn pair' events) : pair'.Coherent capacity := by
  cases t with
  | wrote _ ht | refused _ ht =>
    exact {
      capacity := ht.capacity.trans h.capacity
      justified := ht.justified h.justified
      writer := by simp [ht.writer, Offered.stance, Writing.InProgress]
      reader := ht.reader_running.trans h.reader
      opened := by simp [Writing.InProgress]
      readerGone := by rw [ht.flags.2]; exact h.readerGone }
  | writeWaits _ ht =>
    exact {
      capacity := ht.capacity.trans h.capacity
      justified := ht.justified h.justified
      writer := by simp [ht.writer, Offered.stance, Writing.InProgress]
      reader := ht.reader_running.trans h.reader
      -- A turn waits only after it has found the buffer open.
      opened := fun _ => ((ht.justified h.justified).writer ht.writer).2.1
      readerGone := by rw [ht.flags.2]; exact h.readerGone }
  | close hw | dropWriter hw =>
    obtain ⟨hring, -, hgone, hwriter, hreader⟩ := close_frame pair.buffer
    have hidle : pair.buffer.writer = .running := h.writer.mpr (by simp [hw, Writing.InProgress])
    exact {
      capacity := by rw [hring]; exact h.capacity
      justified := justified_close h.justified (by simp [hidle])
      writer := by simp [hwriter, hidle, hw, Writing.InProgress]
      reader := hreader.trans h.reader
      opened := by simp [hw, Writing.InProgress]
      readerGone := by rw [hgone]; exact h.readerGone }
  | read hr ht | readEnded hr ht | readWaits hr ht =>
    exact {
      capacity := ht.capacity.trans h.capacity
      justified := ht.justified h.justified
      writer := ht.writer_running.trans h.writer
      reader := by simp [ht.reader, Taken.stance, Reading.InProgress]
      opened := fun hw => by rw [ht.flags.1]; exact h.opened hw
      readerGone := by simp [ht.flags.2, h.alive hr] }
  | dropReader hr =>
    exact {
      capacity := h.capacity
      justified := justified_dropReader h.justified
      writer := Stance.notify_eq_running.trans h.writer
      reader := by
        have hidle : pair.buffer.reader = .running :=
          h.reader.mpr (by simp [hr, Reading.InProgress])
        simp [dropReader, hidle, Reading.InProgress]
      opened := h.opened
      readerGone := by simp [dropReader] }

theorem Reached.coherent {capacity : Nat} {pair : Pair} {events : List Event}
    (h : Reached capacity pair events) : pair.Coherent capacity :=
  h.rec_turn (P := fun pair _ => pair.Coherent capacity) Pair.coherent_start fun h t => h.turn t

/-! ## Wake-ups -/

variable {capacity : Nat} {pair next : Pair} {action : Action} {later : List Event}

theorem notified_of_ne {stance : Stance} (hr : stance ≠ .running) (hw : stance ≠ .waiting) :
    stance = .notified := by
  cases stance with
  | running => exact absurd rfl hr
  | waiting => exact absurd rfl hw
  | notified => rfl

theorem Pair.Coherent.full (h : pair.Coherent capacity) (hw : pair.buffer.writer = .waiting) :
    pair.buffer.size = capacity := by
  have hroom := (h.justified.writer hw).1
  have hsize := pair.buffer.ring.size_le_capacity
  rw [Ring.room, h.capacity] at hroom
  rw [h.capacity] at hsize
  rw [Buffer.size]
  omega

theorem Pair.closed_of_step (ha : action = .close ∨ action = .dropWriter)
    (hs : pair.step action = some (next, later)) : next.buffer.closed = true := by
  have hclosed := (close_frame pair.buffer).2.1
  rcases ha with rfl | rfl
  · simp only [step] at hs
    split at hs
    · cases hs
      exact hclosed
    · cases hs
  · simp only [step] at hs
    split at hs
    · cases hs
      exact hclosed
    · cases hs

theorem Pair.readerGone_of_step (hs : pair.step .dropReader = some (next, later)) :
    next.buffer.readerGone = true := by
  simp only [step] at hs
  split at hs
  · cases hs
    rfl
  · cases hs

/-- **What takes the reason of a party away does not leave it waiting**: a close or the drop of the
writer and bytes that are put notify the reader, the drop of the reader and room that is made the
writer. -/
theorem Pair.Coherent.notifies (h : pair.Coherent capacity)
    (hs : pair.step action = some (next, later)) :
    (action = .close ∨ action = .dropWriter ∨ pair.buffer.size < next.buffer.size →
        next.buffer.reader ≠ .waiting) ∧
      (action = .dropReader ∨ next.buffer.size < pair.buffer.size →
        next.buffer.writer ≠ .waiting) := by
  have hnext := h.turn (turn_of_step hs)
  constructor
  · intro hwhy hwaiting
    obtain ⟨hempty, hopen⟩ := hnext.justified.reader hwaiting
    rcases or_assoc.mpr hwhy with hclose | hbytes
    · rw [closed_of_step hclose hs] at hopen
      cases hopen
    · rw [Buffer.size, Buffer.size] at hbytes
      omega
  · intro hwhy hwaiting
    have hfull := hnext.full hwaiting
    rcases hwhy with rfl | hroom
    · have halive := (hnext.justified.writer hwaiting).2.2
      rw [readerGone_of_step hs] at halive
      cases halive
    · have hsize := pair.buffer.ring.size_le_capacity
      rw [h.capacity] at hsize
      rw [hfull, Buffer.size] at hroom
      omega

/-- **No wake-up is lost.** In every state that a run leads to: a writer that waits and has not
been notified is at a full, open buffer with its reader alive; a reader that waits and has not
been notified is at an empty, open one; so they do not both wait. And once the reason of an
operation in progress is gone, be it by room or bytes, a close or the reader's leaving, the
operation has been notified. It is the step that takes the reason away that sees to this: behind it
the party does not wait. -/
theorem no_lost_wakeup {capacity : Nat} {pair : Pair} {events : List Event}
    (h : Reached capacity pair events) :
    (pair.buffer.writer = .waiting → pair.buffer.size = capacity ∧
        pair.buffer.closed = false ∧ pair.buffer.readerGone = false) ∧
      (pair.buffer.reader = .waiting → pair.buffer.size = 0 ∧ pair.buffer.closed = false) ∧
      ¬(pair.buffer.writer = .waiting ∧ pair.buffer.reader = .waiting) ∧
      (pair.writing.InProgress → (pair.buffer.closed = true ∨ pair.buffer.readerGone = true ∨
        pair.buffer.size < capacity) → pair.buffer.writer = .notified) ∧
      (pair.reading.InProgress → (pair.buffer.closed = true ∨ 0 < pair.buffer.size) →
        pair.buffer.reader = .notified) ∧
      ∀ action next later, pair.step action = some (next, later) →
        (action = .close ∨ action = .dropWriter ∨ pair.buffer.size < next.buffer.size →
            next.buffer.reader ≠ .waiting) ∧
          (action = .dropReader ∨ next.buffer.size < pair.buffer.size →
            next.buffer.writer ≠ .waiting) := by
  have hc := h.coherent
  have hpos : 0 < capacity := hc.capacity ▸ pair.buffer.ring.capacity_pos
  have hwriter : pair.buffer.writer = .waiting → pair.buffer.size = capacity ∧
      pair.buffer.closed = false ∧ pair.buffer.readerGone = false :=
    fun hw => ⟨hc.full hw, (hc.justified.writer hw).2⟩
  have hreader : pair.buffer.reader = .waiting →
      pair.buffer.size = 0 ∧ pair.buffer.closed = false := hc.justified.reader
  refine ⟨hwriter, hreader, ?_, ?_, ?_, fun _ _ _ hs => hc.notifies hs⟩
  · intro hboth
    obtain ⟨hw, hr⟩ := hboth
    have hfull := (hwriter hw).1
    have hempty := (hreader hr).1
    omega
  · intro hp hgone
    refine notified_of_ne (fun hrun => hc.writer.mp hrun hp) fun hw => ?_
    obtain ⟨hfull, hopen, halive⟩ := hwriter hw
    rcases hgone with hclosed | hdead | hroom
    · simp [hopen] at hclosed
    · simp [halive] at hdead
    · omega
  · intro hp hgone
    refine notified_of_ne (fun hrun => hc.reader.mp hrun hp) fun hr => ?_
    obtain ⟨hempty, hopen⟩ := hreader hr
    rcases hgone with hclosed | hbytes
    · simp [hopen] at hclosed
    · omega

/-- In a buffer of one byte the second byte of a write waits; a read makes room and notifies
the writer, and so does the drop of the reader. -/
theorem no_lost_wakeup_one_byte :
    (∃ pair, Reached 1 pair [] ∧ pair.buffer.writer = .waiting ∧ pair.buffer.size = 1 ∧
        pair.buffer.closed = false ∧ pair.buffer.readerGone = false ∧
        ∃ next, pair.step .dropReader = some (next, []) ∧ next.buffer.writer ≠ .waiting) ∧
      ∃ pair, Reached 1 pair [.read 8 (some [1])] ∧ pair.writing.InProgress ∧
        pair.buffer.size < 1 ∧ pair.buffer.writer = .notified := by
  have hwait : Reached 1 _ [] := ⟨_, [.write [1, 2]], rfl, rfl⟩
  have hroom : Reached 1 _ [.read 8 (some [1])] := ⟨_, [.write [1, 2], .read 8], rfl, rfl⟩
  have hprogress := Writing.inProgress_waiting [1, 2] [2]
  obtain ⟨hfull, hopen, halive⟩ := (no_lost_wakeup hwait).1 rfl
  refine ⟨⟨_, hwait, rfl, hfull, hopen, halive, _, rfl, ?_⟩, _, hroom, hprogress,
    Nat.zero_lt_one, ?_⟩
  · exact ((no_lost_wakeup hwait).2.2.2.2.2 .dropReader _ _ rfl).2 (.inl rfl)
  · exact (no_lost_wakeup hroom).2.2.2.1 hprogress (.inr (.inr Nat.zero_lt_one))

end Buffer

end Parley
