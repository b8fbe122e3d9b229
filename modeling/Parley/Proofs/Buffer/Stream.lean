import Parley.Proofs.Buffer.Waiting

/-!
# Nothing is lost on the way

A write may go in pieces: it waits whenever the ring is full, and the reader takes bytes in
between. The bytes still arrive as they were written.

**The invariant** (`Stream`). What reads have returned, followed by what the ring holds, is
the data of the accepted writes, followed by what was taken of one more write (`Balance`).
There are three cases for this last write: there is none; it is in progress; or the reader
left before all of it was taken. The third is final, since a buffer without a reader takes
nothing, so there is never a second one. Besides, once a read has met the end of the stream
the ring stays empty and the two sides of the equation stay equal.

**Theorem (`stream_intact`).** The invariant holds after every run, so a reader that has met
the end has received all that was accepted, once and in order.
-/

namespace Parley.Buffer

/-! ## Histories -/

/-- All bytes that reads have returned. -/
def received (events : List Event) : List UInt8 :=
  events.flatMap fun
    | .read _ (some bytes) => bytes
    | _ => []

/-- The data of all writes that were accepted. -/
def accepted (events : List Event) : List UInt8 :=
  events.flatMap fun
    | .wrote data _ (.ok _) => data
    | _ => []

@[simp] theorem received_append (events more : List Event) :
    received (events ++ more) = received events ++ received more :=
  List.flatMap_append

@[simp] theorem accepted_append (events more : List Event) :
    accepted (events ++ more) = accepted events ++ accepted more :=
  List.flatMap_append

@[simp] theorem received_wrote (data left : List UInt8) (result : Except BufferError Unit) :
    received [.wrote data left result] = [] := rfl

@[simp] theorem received_read_some (n : Nat) (bytes : List UInt8) :
    received [.read n (some bytes)] = bytes :=
  List.append_nil bytes

@[simp] theorem accepted_wrote_ok (data left : List UInt8) :
    accepted [.wrote data left (.ok ())] = data :=
  List.append_nil data

@[simp] theorem accepted_wrote_error (data left : List UInt8) (error : BufferError) :
    accepted [.wrote data left (.error error)] = [] := rfl

/-! ## The balance of a run -/

/-- What was received and what the ring holds against what was accepted. -/
inductive Balance (pair : Pair) (events : List Event) : Prop
  /-- All that was taken belongs to accepted writes. -/
  | even (hw : ¬pair.writing.InProgress)
      (h : received events ++ pair.buffer.contents = accepted events)
  /-- A part of a write in progress was taken as well. -/
  | writing {part left : List UInt8} (hw : pair.writing = .waiting (part ++ left) left)
      (h : received events ++ pair.buffer.contents = accepted events ++ part)
  /-- A part of a write was taken before the reader left. -/
  | cutOff {part left : List UInt8} (hw : ¬pair.writing.InProgress)
      (hg : pair.buffer.readerGone = true)
      (he : .wrote (part ++ left) left (.error .readerGone) ∈ events)
      (h : received events ++ pair.buffer.contents = accepted events ++ part)

/-- Turns that neither accept data nor begin or end a write in progress keep the balance. -/
theorem Balance.keep {pair pair' : Pair} {past events : List Event} (h : Balance pair past)
    (hw : pair'.writing = pair.writing ∨
      ¬pair.writing.InProgress ∧ ¬pair'.writing.InProgress)
    (hg : pair.buffer.readerGone = true → pair'.buffer.readerGone = true)
    (hr : received events ++ pair'.buffer.contents = pair.buffer.contents)
    (ha : accepted events = []) : Balance pair' (past ++ events) := by
  have hbal : received (past ++ events) ++ pair'.buffer.contents =
      received past ++ pair.buffer.contents := by
    rw [received_append, List.append_assoc, hr]
  have hacc : accepted (past ++ events) = accepted past := by
    rw [accepted_append, ha, List.append_nil]
  cases h with
  | even hidle h =>
    refine .even ?_ (by rw [hbal, hacc, h])
    rcases hw with hw | hw
    · rwa [hw]
    · exact hw.2
  | writing hwait h =>
    rcases hw with hw | hw
    · exact .writing (hw.trans hwait) (by rw [hbal, hacc, h])
    · exact absurd ⟨_, _, hwait⟩ hw.1
  | cutOff hidle hgone he h =>
    refine .cutOff ?_ (hg hgone) (List.mem_append_left _ he) (by rw [hbal, hacc, h])
    rcases hw with hw | hw
    · rwa [hw]
    · exact hw.2

section Turns

variable {capacity : Nat} {pair : Pair} {past : List Event} {data left rest : List UInt8}
  {buffer : Buffer}

theorem not_inProgress_of_idle {writing : Writing} (h : writing = .idle) :
    ¬writing.InProgress := by
  simp [h, Writing.InProgress]

/-- What was taken of the write at hand is all that tips the balance, unless the write has
just begun and an earlier one was cut off. -/
theorem Balance.taken (h : Balance pair past) (hw : pair.Writes data left) :
    (∃ part, data = part ++ left ∧
        received past ++ pair.buffer.contents = accepted past ++ part) ∨
      pair.writing = .idle ∧ data = left ∧ pair.buffer.readerGone = true := by
  cases hw with
  | start hidle =>
    cases h with
    | even _ h => exact Or.inl ⟨[], rfl, by rw [h, List.append_nil]⟩
    | writing hwait _ => rw [hidle] at hwait; cases hwait
    | cutOff _ hg _ _ => exact Or.inr ⟨hidle, rfl, hg⟩
  | resume hwait =>
    cases h with
    | writing hwait' h =>
      rw [hwait] at hwait'
      cases hwait'
      exact Or.inl ⟨_, rfl, h⟩
    | even hidle _ | cutOff hidle _ _ _ => exact absurd ⟨_, _, hwait⟩ hidle

theorem Balance.taken_of_alive (h : Balance pair past) (hw : pair.Writes data left)
    (ha : pair.buffer.readerGone = false) :
    ∃ part, data = part ++ left ∧
      received past ++ pair.buffer.contents = accepted past ++ part := by
  rcases h.taken hw with htaken | ⟨-, -, hg⟩
  · exact htaken
  · simp [ha] at hg

theorem Balance.wrote (h : Balance pair past) (hw : pair.Writes data left)
    (t : OfferTurn pair.buffer left buffer .accepted) :
    Balance { pair with buffer, writing := .idle } (past ++ [.wrote data [] (.ok ())]) := by
  have hidle := not_inProgress_of_idle rfl
  cases t with
  | nothing hnil =>
    subst hnil
    rcases h.taken hw with ⟨part, rfl, hbal⟩ | ⟨hstart, rfl, -⟩
    · exact .even hidle (by simpa [Buffer.contents] using hbal)
    · exact h.keep (.inr ⟨not_inProgress_of_idle hstart, hidle⟩) id rfl rfl
  | whole _ _ ha hr =>
    obtain ⟨part, rfl, hbal⟩ := h.taken_of_alive hw ha
    have hcontents := Ring.contents_push pair.buffer.ring left
    rw [List.take_of_length_le hr] at hcontents
    refine .even hidle ?_
    show received (past ++ _) ++ (pair.buffer.ring.push left).1.contents = _
    calc received (past ++ _) ++ (pair.buffer.ring.push left).1.contents
        = (received past ++ pair.buffer.contents) ++ left := by
          rw [hcontents, received_append, received_wrote, List.append_nil, List.append_assoc]
          rfl
      _ = accepted (past ++ [.wrote (part ++ left) [] (.ok ())]) := by
          rw [hbal, accepted_append, accepted_wrote_ok, List.append_assoc]

/-- A refused write leaves the balance even, unless it was in progress when the reader left. -/
theorem Balance.refused {error : BufferError} (hc : pair.Coherent capacity)
    (h : Balance pair past) (hw : pair.Writes data left)
    (t : OfferTurn pair.buffer left buffer (.refused error rest)) :
    Balance { pair with buffer, writing := .idle } (past ++ [.wrote data rest (.error error)]) := by
  have hidle := not_inProgress_of_idle rfl
  cases t with
  | closed _ hclosed =>
    obtain ⟨hstart, -⟩ := hc.starts hclosed hw
    exact h.keep (.inr ⟨not_inProgress_of_idle hstart, hidle⟩) id rfl rfl
  | readerGone _ _ hg =>
    rcases h.taken hw with ⟨part, rfl, hbal⟩ | ⟨hstart, -, -⟩
    · refine .cutOff hidle hg (List.mem_append_right _ (List.mem_singleton.mpr rfl)) ?_
      simpa [Buffer.contents] using hbal
    · exact h.keep (.inr ⟨not_inProgress_of_idle hstart, hidle⟩) id rfl rfl

theorem Balance.waits (h : Balance pair past) (hw : pair.Writes data left)
    (t : OfferTurn pair.buffer left buffer (.waiting rest)) :
    Balance { pair with buffer, writing := .waiting data rest } (past ++ []) := by
  rw [List.append_nil]
  cases t with
  | full _ _ ha _ =>
    obtain ⟨part, rfl, hbal⟩ := h.taken_of_alive hw ha
    exact .writing rfl hbal
  | part _ ha _ _ =>
    obtain ⟨part, rfl, hbal⟩ := h.taken_of_alive hw ha
    have hsplit : part ++ left = (part ++ left.take pair.buffer.ring.room) ++
        left.drop pair.buffer.ring.room := by
      rw [List.append_assoc, List.take_append_drop]
    refine .writing (congrArg (Writing.waiting · _) hsplit) ?_
    show received past ++ (pair.buffer.ring.push left).1.contents = _
    rw [Ring.contents_push, ← List.append_assoc, ← List.append_assoc]
    exact congrArg (· ++ _) hbal

/-- **Every turn keeps the balance.** -/
theorem Balance.turn {pair' : Pair} {events : List Event} (hc : pair.Coherent capacity)
    (h : Balance pair past) (t : pair.Turn pair' events) : Balance pair' (past ++ events) := by
  cases t with
  | wrote hw ht => exact h.wrote hw ht
  | refused hw ht => exact h.refused hc hw ht
  | writeWaits hw ht => exact h.waits hw ht
  | close hw =>
    obtain ⟨hring, -, hgone, -, -⟩ := close_frame pair.buffer
    exact h.keep (.inl rfl) (fun hg => hgone.trans hg) (congrArg Ring.contents hring) rfl
  | dropWriter hw =>
    obtain ⟨hring, -, hgone, -, -⟩ := close_frame pair.buffer
    refine h.keep (.inr ⟨not_inProgress_of_idle hw, nofun⟩) (fun hg => hgone.trans hg) ?_ rfl
    exact congrArg Ring.contents hring
  | read _ ht =>
    refine h.keep (.inl rfl) (fun hg => ht.flags.2.trans hg) ?_ rfl
    rw [received_read_some]
    cases ht with
    | nothing => rfl
    | some =>
      show _ ++ (pair.buffer.ring.pop _).1.contents = _
      rw [Ring.contents_pop]
      exact List.take_append_drop _ _
  | readEnded _ ht => cases ht; exact h.keep (.inl rfl) id rfl rfl
  | readWaits _ ht => cases ht; exact h.keep (.inl rfl) id rfl rfl
  | dropReader => exact h.keep (.inl rfl) (fun _ => rfl) rfl rfl

/-! ## The end of the stream -/

theorem Pair.Coherent.drained_turn {pair' : Pair} {events : List Event}
    (hc : pair.Coherent capacity) (hclosed : pair.buffer.closed = true)
    (hempty : pair.buffer.ring.size = 0) (t : pair.Turn pair' events) :
    pair'.buffer.closed = true ∧ pair'.buffer.ring.size = 0 ∧
      received events = [] ∧ accepted events = [] := by
  cases t with
  | wrote hw ht =>
    cases ht with
    | nothing hnil =>
      obtain ⟨-, rfl⟩ := hc.starts hclosed hw
      exact ⟨hclosed, hempty, rfl, by rw [hnil, accepted_wrote_ok]⟩
    | whole _ ho => simp [hclosed] at ho
  | refused _ ht => cases ht <;> exact ⟨hclosed, hempty, rfl, rfl⟩
  | writeWaits _ ht =>
    cases ht with
    | full _ ho | part ho => simp [hclosed] at ho
  | close | dropWriter =>
    obtain ⟨hring, hclosed', -, -, -⟩ := close_frame pair.buffer
    exact ⟨hclosed', (congrArg Ring.size hring).trans hempty, rfl, rfl⟩
  | read _ ht =>
    cases ht with
    | nothing => exact ⟨hclosed, hempty, rfl, rfl⟩
    | some _ hs => exact absurd hempty hs
  | readEnded _ ht => cases ht; exact ⟨hclosed, hempty, rfl, rfl⟩
  | readWaits _ ht =>
    cases ht with
    | empty _ _ ho => simp [hclosed] at ho
  | dropReader => exact ⟨hclosed, hempty, rfl, rfl⟩

theorem Pair.Turn.ended {pair' : Pair} {events : List Event} {n : Nat}
    (t : pair.Turn pair' events) (hn : .read n none ∈ events) :
    pair.Reads n ∧ pair'.buffer.closed = true ∧ pair'.buffer.ring.size = 0 ∧
      pair'.buffer.readerGone = pair.buffer.readerGone := by
  cases t with
  | readEnded hr ht =>
    obtain rfl : n = _ := by simpa using hn
    cases ht with
    | ended _ he hclosed => exact ⟨hr, hclosed, he, rfl⟩
  | _ => simp at hn

end Turns

/-! ## Whole runs -/

/-- What holds of the state and the history after every run. -/
structure Stream (capacity : Nat) (pair : Pair) (events : List Event) : Prop where
  coherent : pair.Coherent capacity
  balance : Balance pair events
  ended : ∀ n, .read n none ∈ events →
    pair.buffer.closed = true ∧ pair.buffer.ring.size = 0 ∧ received events = accepted events

theorem stream_start {capacity : Nat} (h : 0 < capacity) :
    Stream capacity { buffer := { ring := .empty capacity h } } [] where
  coherent := Pair.coherent_start h
  balance := .even (not_inProgress_of_idle rfl) rfl
  ended := nofun

theorem Stream.turn {capacity : Nat} {pair pair' : Pair} {past events : List Event}
    (h : Stream capacity pair past) (t : pair.Turn pair' events) :
    Stream capacity pair' (past ++ events) := by
  have hc := h.coherent.turn t
  have hb := h.balance.turn h.coherent t
  refine { coherent := hc, balance := hb, ended := fun n hn => ?_ }
  rcases List.mem_append.mp hn with hpast | hnew
  · obtain ⟨hclosed, hempty, heq⟩ := h.ended n hpast
    obtain ⟨hclosed', hempty', hr, ha⟩ := h.coherent.drained_turn hclosed hempty t
    exact ⟨hclosed', hempty', by rw [received_append, accepted_append, hr, ha, heq]⟩
  · obtain ⟨hreads, hclosed, hempty, hgone⟩ := t.ended hnew
    refine ⟨hclosed, hempty, ?_⟩
    have hcontents : pair'.buffer.contents = [] :=
      List.eq_nil_of_length_eq_zero ((Ring.length_contents _).trans hempty)
    -- The buffer is closed, so no write is in progress; the reader is there, so none was cut off.
    cases hb with
    | even _ heq => rwa [hcontents, List.append_nil] at heq
    | writing hw _ =>
      have hopen := hc.opened ⟨_, _, hw⟩
      simp [hclosed] at hopen
    | cutOff _ hg _ _ => simp [hgone, h.coherent.alive hreads] at hg

theorem Reached.stream {capacity : Nat} {pair : Pair} {events : List Event}
    (h : Reached capacity pair events) : Stream capacity pair events :=
  h.rec_turn stream_start fun h t => h.turn t

/-- **Nothing is lost, doubled or out of order.** After every run the bytes received, followed
by those in the ring, are the data of the accepted writes, followed by a part of at most one
write, which is in progress or was cut off by the reader's leaving; the ring is never
overfull; and a reader that has met the end of the stream has received exactly what was
accepted. -/
theorem stream_intact {capacity : Nat} {pair : Pair} {events : List Event}
    (h : Reached capacity pair events) :
    (∃ part, received events ++ pair.buffer.contents = accepted events ++ part ∧
        (part = [] ∨ (∃ left, pair.writing = .waiting (part ++ left) left) ∨
          ∃ left, .wrote (part ++ left) left (.error .readerGone) ∈ events)) ∧
      pair.buffer.size ≤ capacity ∧
      ∀ n, .read n none ∈ events → received events = accepted events := by
  have hs := h.stream
  refine ⟨?_, ?_, fun n hn => (hs.ended n hn).2.2⟩
  · cases hs.balance with
    | even _ heq => exact ⟨[], by rw [heq, List.append_nil], Or.inl rfl⟩
    | writing hw heq => exact ⟨_, heq, Or.inr (Or.inl ⟨_, hw⟩)⟩
    | cutOff _ _ he heq => exact ⟨_, heq, Or.inr (Or.inr ⟨_, he⟩)⟩
  · rw [← hs.coherent.capacity]
    exact pair.buffer.ring.size_le_capacity

/-- Three bytes through a ring of two: the write takes two turns, with a read between them. -/
theorem stream_intact_wrapped :
    let events : List Event := [.read 1 (some [1]), .wrote [1, 2, 3] [] (.ok ()),
      .read 5 (some [2, 3]), .read 1 none]
    ∃ pair, Reached 2 pair events ∧ .read 1 none ∈ events ∧
      received events = accepted events ∧ accepted events = [1, 2, 3] := by
  intro events
  have hrun : ∃ pair, Pair.run { buffer := { ring := .empty 2 (by decide) } }
      [.write [1, 2, 3], .read 1, .resumeWrite, .close, .read 5, .read 1] =
      some (pair, events) := by
    apply Exists.intro
    cbv
  obtain ⟨pair, hrun⟩ := hrun
  have h : Reached 2 pair events := ⟨_, _, rfl, hrun⟩
  have hend : .read 1 none ∈ events := by simp [events]
  exact ⟨pair, h, hend, (stream_intact h).2.2 1 hend, rfl⟩

end Parley.Buffer
