import Parley.Proofs.Buffer.Stream

/-!
# How a buffer ends

A buffer comes to an end in two ways: its writer closes it, or its reader leaves it. Either may
happen at any fill level and while the other party is in the middle of an operation.

**What operations come to** (`Settles`). An operation that comes to its end in a turn comes to what
the buffer has just before this turn, through however many turns it has waited. A refused write
had to wait for nothing if the buffer is closed, because only an idle writer closes.

**Nothing is taken back.** No turn opens a closed buffer or brings a reader back. Where the buffer
is closed and drained, every read meets the end; where the reader is gone, the ring stays as it is
(`Deserted`), so a write that was in progress is told how much of it was not taken by then.

**Theorem (`ends_final`).** After every run, reads and writes end as they must, and both ways in
which a buffer ends are final.
-/

namespace Parley.Buffer

variable {capacity : Nat} {pair pair' : Pair} {past events : List Event} {data left : List UInt8}

/-! ## Operations that come to their end -/

/-- What an operation that comes to its end at a buffer comes to. -/
inductive Settles (buffer : Buffer) : Event → Prop
  | nothing : Settles buffer (.read 0 (some []))
  | ended {n : Nat} (hn : n ≠ 0) (hc : buffer.closed = true) (he : buffer.size = 0) :
    Settles buffer (.read n none)
  | bytes {n : Nat} (hn : n ≠ 0) (hs : buffer.size ≠ 0) :
    Settles buffer (.read n (some (buffer.contents.take n)))
  | accepted (data : List UInt8) : Settles buffer (.wrote data [] (.ok ()))
  | closed {data : List UInt8} (hne : data ≠ []) (hc : buffer.closed = true) :
    Settles buffer (.wrote data data (.error .closed))
  | readerGone {data left : List UInt8} (hne : left ≠ []) (ho : buffer.closed = false)
      (hg : buffer.readerGone = true) : Settles buffer (.wrote data left (.error .readerGone))

theorem Pair.Turn.settles (hc : pair.Coherent capacity) (t : pair.Turn pair' events)
    {event : Event} (hm : event ∈ events) : pair.buffer.Settles event := by
  cases t with
  | wrote =>
    obtain rfl := List.mem_singleton.mp hm
    exact .accepted _
  | refused hw ht =>
    obtain rfl := List.mem_singleton.mp hm
    cases ht with
    | closed hne hclosed =>
      obtain ⟨-, rfl⟩ := hc.starts hclosed hw
      exact .closed hne hclosed
    | readerGone hne ho hg => exact .readerGone hne ho hg
  | read hr ht =>
    obtain rfl := List.mem_singleton.mp hm
    cases ht with
    | nothing hn => subst hn; exact .nothing
    | some hn hs => exact .bytes hn hs
  | readEnded hr ht =>
    obtain rfl := List.mem_singleton.mp hm
    cases ht with
    | ended hn he hclosed => exact .ended hn hclosed he
  | writeWaits | readWaits | close | dropWriter | dropReader => cases hm

theorem settles_of_step (hc : pair.Coherent capacity) {action : Action}
    (h : pair.step action = some (pair', events)) {event : Event} (hm : event ∈ events) :
    pair.buffer.Settles event :=
  (Pair.turn_of_step h).settles hc hm

/-- A read is told the end of a closed and drained buffer and nothing else; otherwise it gets as
many bytes as there are and as it has room for. -/
theorem Settles.read {buffer : Buffer} {n : Nat} {result : Option (List UInt8)}
    (h : buffer.Settles (.read n result)) (hn : n ≠ 0) :
    (result = none ↔ buffer.closed = true ∧ buffer.size = 0) ∧
      ∀ bytes, result = some bytes → bytes = buffer.contents.take n ∧
        bytes.length = min n buffer.size ∧ 1 ≤ bytes.length := by
  cases h with
  | nothing => exact absurd rfl hn
  | ended _ hc he => exact ⟨iff_of_true rfl ⟨hc, he⟩, nofun⟩
  | bytes _ hs =>
    refine ⟨iff_of_false nofun fun hend => hs hend.2, fun bytes heq => ?_⟩
    obtain rfl := Option.some.inj heq
    have hlength : (buffer.contents.take n).length = min n buffer.size := by
      rw [List.length_take, contents, Ring.length_contents]
      rfl
    exact ⟨rfl, hlength, by omega⟩

theorem Settles.refused {buffer : Buffer} {error : BufferError}
    (h : buffer.Settles (.wrote data left (.error error))) : left ≠ [] ∧
      (error = .closed ∧ buffer.closed = true ∧ left = data ∨
        error = .readerGone ∧ buffer.closed = false ∧ buffer.readerGone = true) := by
  cases h with
  | closed hne hc => exact ⟨hne, .inl ⟨rfl, hc, rfl⟩⟩
  | readerGone hne ho hg => exact ⟨hne, .inr ⟨rfl, ho, hg⟩⟩

/-! ## Nothing is taken back -/

theorem Pair.Turn.flags (t : pair.Turn pair' events) :
    (pair.buffer.closed = true → pair'.buffer.closed = true) ∧
      (pair.buffer.readerGone = true → pair'.buffer.readerGone = true) := by
  cases t with
  | wrote _ ht | refused _ ht | writeWaits _ ht =>
    exact ⟨fun h => ht.flags.1.trans h, fun h => ht.flags.2.trans h⟩
  | read _ ht | readEnded _ ht | readWaits _ ht =>
    exact ⟨fun h => ht.flags.1.trans h, fun h => ht.flags.2.trans h⟩
  | close | dropWriter =>
    obtain ⟨-, hclosed, hgone, -, -⟩ := close_frame pair.buffer
    exact ⟨fun _ => hclosed, fun h => hgone.trans h⟩
  | dropReader => exact ⟨id, fun _ => rfl⟩

theorem Pair.run_turn_nil {P : Pair → List Event → Prop}
    (hturn : ∀ {pair past pair' events}, P pair past → pair.Turn pair' events →
      P pair' (past ++ events))
    {actions : List Action} (hp : P pair []) (h : pair.run actions = some (pair', events)) :
    P pair' events :=
  run_turn hturn hp h

theorem Pair.flags_run {actions : List Action} (h : pair.run actions = some (pair', events)) :
    (pair.buffer.closed = true → pair'.buffer.closed = true) ∧
      (pair.buffer.readerGone = true → pair'.buffer.readerGone = true) :=
  run_turn_nil (P := fun last _ => (pair.buffer.closed = true → last.buffer.closed = true) ∧
      (pair.buffer.readerGone = true → last.buffer.readerGone = true))
    (fun h t => ⟨t.flags.1 ∘ h.1, t.flags.2 ∘ h.2⟩) ⟨id, id⟩ h

@[simp] theorem close_close (buffer : Buffer) : buffer.close.close = buffer.close :=
  if_pos (close_frame buffer).2.1

/-- Closing closes and does no more; to close again changes nothing, and to drop the writer is to
close. -/
theorem Pair.close_twice {next : Pair} {more : List Event}
    (h : pair.step .close = some (next, more)) :
    next.buffer.closed = true ∧ next.buffer.contents = pair.buffer.contents ∧
      next.step .close = some (next, []) ∧
      pair.step .dropWriter = some ({ next with writing := .gone }, []) ∧
      next.step .dropWriter = some ({ next with writing := .gone }, []) := by
  obtain ⟨hring, hclosed, -, -, -⟩ := close_frame pair.buffer
  simp only [step] at h
  split at h
  · next hidle =>
    cases h
    refine ⟨hclosed, congrArg Ring.contents hring, ?_, ?_, ?_⟩
    · simp only [step, hidle, close_close]
    · simp only [step, hidle]
    · simp only [step, hidle, close_close]
  · cases h

/-! ## A closed and drained buffer -/

theorem Pair.Coherent.run_of_drained {actions : List Action} (hc : pair.Coherent capacity)
    (hclosed : pair.buffer.closed = true) (hempty : pair.buffer.size = 0)
    (h : pair.run actions = some (pair', events)) :
    pair'.Coherent capacity ∧ pair'.buffer.closed = true ∧ pair'.buffer.size = 0 ∧
      ∀ n result, n ≠ 0 → .read n result ∈ events → result = none := by
  refine run_turn_nil (P := fun last more => last.Coherent capacity ∧ last.buffer.closed = true ∧
      last.buffer.size = 0 ∧ ∀ n result, n ≠ 0 → .read n result ∈ more → result = none)
    ?_ ⟨hc, hclosed, hempty, nofun⟩ h
  rintro last past next more ⟨hc, hclosed, hempty, hreads⟩ t
  obtain ⟨hclosed', hempty', -, -⟩ := hc.drained_turn hclosed hempty t
  refine ⟨hc.turn t, hclosed', hempty', fun n result hn hm => ?_⟩
  rcases List.mem_append.mp hm with hm | hm
  · exact hreads n result hn hm
  · exact ((t.settles hc hm).read hn).1.mpr ⟨hclosed, hempty⟩

theorem running_writer_eq {buffer : Buffer} (h : buffer.writer = .running) :
    { buffer with writer := .running } = buffer := by
  rw [← h]

theorem running_reader_eq {buffer : Buffer} (h : buffer.reader = .running) :
    { buffer with reader := .running } = buffer := by
  rw [← h]

theorem Pair.Coherent.read_of_drained (hc : pair.Coherent capacity)
    (hr : pair.reading = .idle) (hclosed : pair.buffer.closed = true)
    (hempty : pair.buffer.size = 0) {n : Nat} (hn : n ≠ 0) :
    pair.step (.read n) = some (pair, [.read n none]) := by
  have hrunning : pair.buffer.reader = .running :=
    hc.reader.mpr (by simp [hr, Reading.InProgress])
  have htake : pair.buffer.take n = (pair.buffer, .ended) := by
    simp only [take]
    rw [if_neg hn, if_pos (show pair.buffer.ring.size = 0 from hempty), if_pos hclosed,
      running_reader_eq hrunning]
  simp only [step, hr, readTurn, htake]
  rw [← hr]

/-! ## Refused writes -/

theorem Pair.Coherent.write_of_closed (hc : pair.Coherent capacity) (hw : pair.writing = .idle)
    (hclosed : pair.buffer.closed = true) (hne : data ≠ []) :
    pair.step (.write data) = some (pair, [.wrote data data (.error .closed)]) := by
  have hrunning : pair.buffer.writer = .running := hc.writer.mpr (not_inProgress_of_idle hw)
  have hoffer : pair.buffer.offer data = (pair.buffer, .refused .closed data) := by
    simp only [offer]
    rw [if_neg (by simpa using hne), if_pos hclosed, running_writer_eq hrunning]
  simp only [step, hw, writeTurn, hoffer]
  rw [← hw]

theorem Pair.Coherent.write_of_readerGone (hc : pair.Coherent capacity)
    (hw : pair.writing = .idle) (hopen : pair.buffer.closed = false)
    (hgone : pair.buffer.readerGone = true) (hne : data ≠ []) :
    pair.step (.write data) = some (pair, [.wrote data data (.error .readerGone)]) := by
  have hrunning : pair.buffer.writer = .running := hc.writer.mpr (not_inProgress_of_idle hw)
  have hoffer : pair.buffer.offer data = (pair.buffer, .refused .readerGone data) := by
    simp only [offer]
    rw [if_neg (by simpa using hne), if_neg (by simp [hopen]), if_pos hgone,
      running_writer_eq hrunning]
  simp only [step, hw, writeTurn, hoffer]
  rw [← hw]

/-! ## A buffer whose reader is gone -/

theorem Pair.Turn.left_ne_nil (t : pair.Turn pair' events)
    (h : ∀ data left, pair.writing = .waiting data left → left ≠ []) :
    ∀ data left, pair'.writing = .waiting data left → left ≠ [] := by
  cases t with
  | wrote | refused | dropWriter => exact nofun
  | writeWaits hw ht =>
    intro data left heq
    cases heq
    cases ht with
    | full hne => exact hne
    | part _ _ _ hr =>
      rw [Ne, List.drop_eq_nil_iff]
      exact Nat.not_le.mpr hr
  | close | read | readEnded | readWaits | dropReader => exact h

theorem Reached.left_ne_nil (h : Reached capacity pair events)
    (hw : pair.writing = .waiting data left) : left ≠ [] :=
  h.rec_turn (P := fun pair _ => ∀ data left, pair.writing = .waiting data left → left ≠ [])
    (fun _ => nofun) (fun h t => t.left_ne_nil h) data left hw

theorem OfferTurn.of_readerGone {buffer buffer' : Buffer} {result : Offered}
    (t : OfferTurn buffer data buffer' result) (hg : buffer.readerGone = true) :
    buffer'.ring = buffer.ring ∧
      (data ≠ [] → buffer.closed = false → result = .refused .readerGone data) := by
  cases t with
  | nothing hnil => exact ⟨rfl, fun hne => absurd hnil hne⟩
  | closed _ hc => exact ⟨rfl, fun _ ho => by simp [hc] at ho⟩
  | readerGone => exact ⟨rfl, fun _ _ => rfl⟩
  | full _ _ ha | whole _ _ ha | part _ ha => simp [hg] at ha

/-- The reader is gone and the ring is as it was left. -/
structure Deserted (ring : Ring) (pair : Pair) : Prop where
  readerGone : pair.buffer.readerGone = true
  reading : pair.reading = .gone
  ring : pair.buffer.ring = ring

theorem Deserted.turn {ring : Ring} (h : Deserted ring pair) (t : pair.Turn pair' events) :
    Deserted ring pair' := by
  obtain ⟨hgone, hreading, hring⟩ := h
  cases t with
  | wrote _ ht | refused _ ht | writeWaits _ ht =>
    exact ⟨ht.flags.2.trans hgone, hreading, (ht.of_readerGone hgone).1.trans hring⟩
  | close | dropWriter =>
    obtain ⟨hsame, -, hgone', -, -⟩ := close_frame pair.buffer
    exact ⟨hgone'.trans hgone, hreading, hsame.trans hring⟩
  | read hr | readEnded hr | readWaits hr =>
    cases hr with
    | start hr | resume hr => simp [hreading] at hr
  | dropReader hr => simp [hreading] at hr

theorem Pair.Writes.eq_of_waiting {data' left' : List UInt8} (hs : pair.Writes data' left')
    (hw : pair.writing = .waiting data left) : data' = data ∧ left' = left := by
  cases hs with
  | start hidle => simp [hw] at hidle
  | resume hwait => simpa [hw, eq_comm] using hwait

/-- What becomes of a write in progress once the reader is gone. -/
inductive Abandoned (data left : List UInt8) (pair : Pair) : List Event → Prop
  | waiting (hw : pair.writing = .waiting data left) : Abandoned data left pair []
  | refused (more : List Event) :
    Abandoned data left pair (.wrote data left (.error .readerGone) :: more)

theorem Abandoned.turn {ring : Ring} (hd : Deserted ring pair) (hne : left ≠ [])
    (hopen : pair.writing = .waiting data left → pair.buffer.closed = false)
    (h : Abandoned data left pair past) (t : pair.Turn pair' events) :
    Abandoned data left pair' (past ++ events) := by
  cases h with
  | refused more => exact .refused (more ++ events)
  | waiting hw =>
    cases t with
    | wrote hs ht | writeWaits hs ht =>
      obtain ⟨rfl, rfl⟩ := hs.eq_of_waiting hw
      cases (ht.of_readerGone hd.readerGone).2 hne (hopen hw)
    | refused hs ht =>
      obtain ⟨rfl, rfl⟩ := hs.eq_of_waiting hw
      cases (ht.of_readerGone hd.readerGone).2 hne (hopen hw)
      exact .refused []
    | close hidle | dropWriter hidle => simp [hw] at hidle
    | read hr | readEnded hr | readWaits hr =>
      cases hr with
      | start hr | resume hr => simp [hd.reading] at hr
    | dropReader hr => simp [hd.reading] at hr

/-- **A write in progress when the reader leaves.** No byte of it is taken from then on. It has been
notified, and its next turn refuses just the bytes that were left. -/
theorem Reached.deserted (h : Reached capacity pair events) {gone : Pair}
    (hw : pair.writing = .waiting data left) (hd : pair.step .dropReader = some (gone, [])) :
    left ≠ [] ∧ gone.buffer.writer = .notified ∧
      gone.step .resumeWrite = some ({ gone with
        buffer := { gone.buffer with writer := .running }
        writing := .idle }, [.wrote data left (.error .readerGone)]) ∧
      ∀ actions last more, gone.run actions = some (last, more) →
        last.buffer.contents = pair.buffer.contents ∧ Abandoned data left last more := by
  have hne := h.left_ne_nil hw
  have hc := h.coherent.turn (Pair.turn_of_step hd)
  obtain ⟨hreading, rfl⟩ : pair.reading = .idle ∧
      gone = { pair with buffer := pair.buffer.dropReader, reading := .gone } := by
    simp only [Pair.step] at hd
    split at hd
    · next hidle => cases hd; exact ⟨hidle, rfl⟩
    · cases hd
  have hopen : pair.buffer.closed = false := h.coherent.opened ⟨data, left, hw⟩
  refine ⟨hne, ?_, ?_, fun actions last more hrun => ?_⟩
  · refine notified_of_ne (fun hrunning => ?_) (Stance.notify_ne_waiting _)
    exact hc.writer.mp hrunning ⟨data, left, hw⟩
  · simp [Pair.step, hw, Pair.writeTurn, offer, dropReader, hne, hopen]
  · obtain ⟨-, hd, ha⟩ := Pair.run_turn_nil (P := fun last more => last.Coherent capacity ∧
        Deserted pair.buffer.ring last ∧ Abandoned data left last more)
      (fun h t => ⟨h.1.turn t, h.2.1.turn t,
        h.2.2.turn h.2.1 hne (fun hw => h.1.opened ⟨data, left, hw⟩) t⟩)
      ⟨hc, ⟨rfl, rfl, rfl⟩, .waiting hw⟩ hrun
    exact ⟨congrArg Ring.contents hd.ring, ha⟩

/-! ## The two ends -/

/-- How the operations at a buffer end, and what is final, after a run in which the operations of
`events` have come to their end. -/
structure Pair.Final (pair : Pair) (events : List Event) : Prop where
  /-- A read is told the end just if the buffer is closed and drained; otherwise it is given as
  many bytes as there are and as it asked for. -/
  reads : ∀ action next more n result, pair.step action = some (next, more) →
    .read n result ∈ more → n ≠ 0 →
    (result = none ↔ pair.buffer.closed = true ∧ pair.buffer.size = 0) ∧
      ∀ bytes, result = some bytes → bytes = pair.buffer.contents.take n ∧
        bytes.length = min n pair.buffer.size ∧ 1 ≤ bytes.length
  /-- Once a read was told the end, every later one is, and at once. -/
  ended : ∀ n, .read n none ∈ events → ∀ actions last more,
    pair.run actions = some (last, more) → ∀ m, m ≠ 0 →
      (∀ result, .read m result ∈ more → result = none) ∧
        (last.reading = .idle → last.step (.read m) = some (last, [.read m none]))
  /-- A closed buffer stays closed, and a reader that is gone stays gone. -/
  flags : ∀ actions last more, pair.run actions = some (last, more) →
    (pair.buffer.closed = true → last.buffer.closed = true) ∧
      (pair.buffer.readerGone = true → last.buffer.readerGone = true)
  /-- Closing closes; to close again changes nothing, and to drop the writer is to close. -/
  closes : ∀ next more, pair.step .close = some (next, more) →
    next.buffer.closed = true ∧ next.buffer.contents = pair.buffer.contents ∧
      next.step .close = some (next, []) ∧
      pair.step .dropWriter = some ({ next with writing := .gone }, []) ∧
      next.step .dropWriter = some ({ next with writing := .gone }, [])
  /-- A write that starts at a closed buffer is refused and changes nothing, and one that starts at
  an open buffer without a reader. -/
  refuses : ∀ data, data ≠ [] → pair.writing = .idle →
    (pair.buffer.closed = true →
      pair.step (.write data) = some (pair, [.wrote data data (.error .closed)])) ∧
      (pair.buffer.closed = false → pair.buffer.readerGone = true →
        pair.step (.write data) = some (pair, [.wrote data data (.error .readerGone)]))
  /-- A write in progress when the reader leaves has bytes left. None of them is taken, and the
  write is refused: it has been notified, and any turn of it refuses just these bytes. -/
  deserts : ∀ data left gone, pair.writing = .waiting data left →
    pair.step .dropReader = some (gone, []) →
    left ≠ [] ∧ gone.buffer.writer = .notified ∧
      (∃ next, gone.step .resumeWrite = some (next, [.wrote data left (.error .readerGone)])) ∧
      ∀ actions last more, gone.run actions = some (last, more) →
        last.buffer.contents = pair.buffer.contents ∧ Abandoned data left last more
  /-- No write is refused otherwise. -/
  only : ∀ action next more data left error, pair.step action = some (next, more) →
    .wrote data left (.error error) ∈ more → left ≠ [] ∧
      (error = .closed ∧ pair.buffer.closed = true ∧ left = data ∨
        error = .readerGone ∧ pair.buffer.closed = false ∧ pair.buffer.readerGone = true)

theorem ends_final (h : Reached capacity pair events) : pair.Final events where
  reads _ _ _ _ _ hstep hm hn := (settles_of_step h.coherent hstep hm).read hn
  ended n hn actions last more hrun m hm := by
    obtain ⟨hclosed, hempty, -⟩ := h.stream.ended n hn
    obtain ⟨hc, hclosed', hempty', hreads⟩ := h.coherent.run_of_drained hclosed hempty hrun
    exact ⟨fun result hr => hreads m result hm hr,
      fun hidle => hc.read_of_drained hidle hclosed' hempty' hm⟩
  flags _ _ _ hrun := Pair.flags_run hrun
  closes _ _ hstep := Pair.close_twice hstep
  refuses data hne hw :=
    ⟨fun hclosed => h.coherent.write_of_closed hw hclosed hne,
      fun hopen hgone => h.coherent.write_of_readerGone hw hopen hgone hne⟩
  deserts data left gone hw hd := by
    obtain ⟨hne, hnotified, hresume, hrun⟩ := h.deserted hw hd
    exact ⟨hne, hnotified, ⟨_, hresume⟩, hrun⟩
  only _ _ _ _ _ _ hstep hm := (settles_of_step h.coherent hstep hm).refused

/-- A write of five bytes to a buffer of two whose reader takes one and leaves: it is told that the
last two were not taken. -/
theorem ends_final_deserted :
    ∃ pair gone, Reached 2 pair [.read 1 (some [1])] ∧
      pair.writing = .waiting [1, 2, 3, 4, 5] [4, 5] ∧
      pair.step .dropReader = some (gone, []) ∧ gone.buffer.writer = .notified ∧
      ∃ next, gone.step .resumeWrite =
        some (next, [.wrote [1, 2, 3, 4, 5] [4, 5] (.error .readerGone)]) := by
  have hrun : ∃ pair, Pair.run { buffer := { ring := .empty 2 (by decide) } }
      [.write [1, 2, 3, 4, 5], .read 1, .resumeWrite] = some (pair, [.read 1 (some [1])]) ∧
        pair.writing = .waiting [1, 2, 3, 4, 5] [4, 5] ∧
        ∃ gone, pair.step .dropReader = some (gone, []) :=
    ⟨_, rfl, rfl, _, rfl⟩
  obtain ⟨pair, hrun, hw, gone, hd⟩ := hrun
  have h : Reached 2 pair [.read 1 (some [1])] := ⟨_, _, rfl, hrun⟩
  obtain ⟨-, hnotified, hresume, -⟩ := (ends_final h).deserts _ _ gone hw hd
  exact ⟨pair, gone, h, hw, hd, hnotified, hresume⟩

end Parley.Buffer
