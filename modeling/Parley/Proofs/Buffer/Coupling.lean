import Mathlib.Algebra.Ring.Nat
import Parley.Proofs.Buffer.Weight
import Parley.Buffer.Coupling

/-!
# What two programs do to each other

A writer's program that writes and then gives up its handle, at one buffer with a reader's program
that reads until it is told of the end (`Consumer.Patient`). `Coupling.Turn` lists the turns of the
two; each of them is a turn of the pair at the buffer.

**No write is refused** (`Sound`). The reader stays until it is told of the end, and the end comes
after the last write.

**Conservation** (`Sound.told`). What the reader may still get (`coming`) is what the ring holds,
what is left of the write in progress, and the data of the writes that have not begun. No turn of
the writer changes it, a read takes bytes off its front, and the end is told when it is empty.
-/

namespace Parley.Buffer

/-! ## Bytes of one turn -/

section Contents

variable {buffer buffer' : Buffer} {bytes : List UInt8} {n : Nat}

theorem OfferTurn.contents {result : Offered} (t : OfferTurn buffer bytes buffer' result) :
    buffer'.contents ++ result.left = buffer.contents ++ bytes := by
  cases t with
  | nothing hnil => rw [hnil]; rfl
  | closed | readerGone | full => rfl
  | whole _ _ _ hr =>
    show (buffer.ring.push bytes).1.contents ++ [] = _
    rw [Ring.contents_push, List.take_of_length_le hr, List.append_nil]
    rfl
  | part =>
    show (buffer.ring.push bytes).1.contents ++ bytes.drop _ = _
    rw [Ring.contents_push, List.append_assoc, List.take_append_drop]
    rfl

theorem TakeTurn.contents {got : List UInt8} (t : TakeTurn buffer n buffer' (.bytes got))
    (hn : 0 < n) :
    got ≠ [] ∧ got.length ≤ n ∧ buffer.contents = got ++ buffer'.contents := by
  cases t with
  | nothing h => omega
  | some _ hs =>
    refine ⟨fun hnil => ?_, List.length_take_le _ _, ?_⟩
    · have hlen := congrArg List.length hnil
      simp only [List.length_take, Buffer.contents, Ring.length_contents, List.length_nil] at hlen
      omega
    · show _ = _ ++ (buffer.ring.pop n).1.contents
      rw [Ring.contents_pop]
      exact (List.take_append_drop _ _).symm

theorem TakeTurn.eq_nil_of_ended (t : TakeTurn buffer n buffer' .ended) :
    buffer'.closed = true ∧ buffer'.ring.size = 0 := by
  cases t with
  | ended _ he hc => exact ⟨hc, he⟩

end Contents

/-! ## What is still to write -/

/-- The data that an action writes. -/
def Action.data : Action → List UInt8
  | .write data => data
  | _ => []

@[simp] theorem Action.data_write (data : List UInt8) : (write data).data = data := rfl

@[simp] theorem Action.data_dropWriter : dropWriter.data = [] := rfl

/-- How many writes an action begins. -/
def Action.writes : Action → Nat
  | .write _ => 1
  | _ => 0

@[simp] theorem Action.writes_write (data : List UInt8) : (write data).writes = 1 := rfl

@[simp] theorem Action.writes_dropWriter : dropWriter.writes = 0 := rfl

/-- What is left of the write in progress. -/
def Writing.left : Writing → List UInt8
  | .waiting _ left => left
  | .idle | .gone => []

@[simp] theorem Writing.left_waiting (data left : List UInt8) : (waiting data left).left = left :=
  rfl

@[simp] theorem Writing.left_idle : idle.left = [] := rfl

@[simp] theorem Writing.left_gone : gone.left = [] := rfl

/-- How many writes are in progress. -/
def Writing.pending : Writing → Nat
  | .waiting _ _ => 1
  | .idle | .gone => 0

@[simp] theorem Writing.pending_waiting (data left : List UInt8) :
    (waiting data left).pending = 1 := rfl

@[simp] theorem Writing.pending_idle : idle.pending = 0 := rfl

@[simp] theorem Writing.pending_gone : gone.pending = 0 := rfl

/-- A reader's program that asks for at least one byte until it is told of the end; what it is
told takes it nearer to its own end, by rank. -/
structure Consumer.Patient {ρ : Type} (consumer : Consumer ρ) (rank : ρ → Nat) : Prop where
  demand_pos : ∀ {reader n}, consumer.demand reader = some n → 0 < n
  stays : ∀ {reader} bytes, consumer.demand reader ≠ none →
    consumer.demand (consumer.receive reader (some bytes)) ≠ none
  rank_some : ∀ reader bytes, rank (consumer.receive reader (some bytes)) ≤ rank reader
  rank_none : ∀ {reader}, consumer.demand reader ≠ none →
    rank (consumer.receive reader none) < rank reader
  two_le : ∀ reader, 2 ≤ rank reader

namespace Coupling

variable {ρ : Type} {consumer : Consumer ρ} {coupling next : Coupling ρ} {capacity : Nat}
  {party : Party}

/-! ## Turns -/

/-- The writer's turn is one with `left` of `data` still to write, and leaves it this script. -/
inductive Offers (coupling : Coupling ρ) : (data left : List UInt8) → List Action → Prop
  | begins {data : List UInt8} {script : List Action} (hw : coupling.pair.writing = .idle)
      (hs : coupling.script = .write data :: script) : Offers coupling data data script
  | resumes {data left : List UInt8} (hw : coupling.pair.writing = .waiting data left) :
    Offers coupling data left coupling.script

/-- The reader's turn is one with room for `n` bytes. -/
inductive Demands (consumer : Consumer ρ) (coupling : Coupling ρ) (n : Nat) : Prop
  | begins (hr : coupling.pair.reading = .idle) (hd : consumer.demand coupling.reader = some n)
  | resumes (hr : coupling.pair.reading = .waiting n)

/-- The turns of the two programs, if the writer's writes and then gives up its handle. -/
inductive Turn (consumer : Consumer ρ) (coupling : Coupling ρ) : Party → Coupling ρ → Prop
  | wrote {data left : List UInt8} {script : List Action} {buffer : Buffer}
      (ho : coupling.Offers data left script)
      (ht : OfferTurn coupling.pair.buffer left buffer .accepted) :
    Turn consumer coupling .writer { coupling with
      pair := { coupling.pair with buffer, writing := .idle }, script
      written := coupling.written.push (.ok ()) }
  | refused {data left rest : List UInt8} {script : List Action} {buffer : Buffer}
      {error : BufferError} (ho : coupling.Offers data left script)
      (ht : OfferTurn coupling.pair.buffer left buffer (.refused error rest)) :
    Turn consumer coupling .writer { coupling with
      pair := { coupling.pair with buffer, writing := .idle }, script
      written := coupling.written.push (.error error) }
  | writeWaits {data left rest : List UInt8} {script : List Action} {buffer : Buffer}
      (ho : coupling.Offers data left script)
      (ht : OfferTurn coupling.pair.buffer left buffer (.waiting rest)) :
    Turn consumer coupling .writer { coupling with
      pair := { coupling.pair with buffer, writing := .waiting data rest }, script }
  | dropWriter (hw : coupling.pair.writing = .idle) (hs : coupling.script = [.dropWriter]) :
    Turn consumer coupling .writer { coupling with
      pair := { coupling.pair with buffer := coupling.pair.buffer.close, writing := .gone }
      script := [] }
  | read {n : Nat} {bytes : List UInt8} {buffer : Buffer} (hd : coupling.Demands consumer n)
      (ht : TakeTurn coupling.pair.buffer n buffer (.bytes bytes)) :
    Turn consumer coupling .reader { coupling with
      pair := { coupling.pair with buffer, reading := .idle }
      reader := consumer.receive coupling.reader (some bytes) }
  | readEnded {n : Nat} {buffer : Buffer} (hd : coupling.Demands consumer n)
      (ht : TakeTurn coupling.pair.buffer n buffer .ended) :
    Turn consumer coupling .reader { coupling with
      pair := { coupling.pair with buffer, reading := .idle }
      reader := consumer.receive coupling.reader none }
  | readWaits {n : Nat} {buffer : Buffer} (hd : coupling.Demands consumer n)
      (ht : TakeTurn coupling.pair.buffer n buffer .waiting) :
    Turn consumer coupling .reader { coupling with
      pair := { coupling.pair with buffer, reading := .waiting n } }
  | dropReader (hr : coupling.pair.reading = .idle)
      (hd : consumer.demand coupling.reader = none) :
    Turn consumer coupling .reader { coupling with
      pair := { coupling.pair with buffer := coupling.pair.buffer.dropReader, reading := .gone } }

theorem Offers.writes {data left : List UInt8} {script : List Action}
    (h : coupling.Offers data left script) : coupling.pair.Writes data left := by
  cases h with
  | begins hw => exact .start _ hw
  | resumes hw => exact .resume hw

theorem Demands.reads {n : Nat} (h : coupling.Demands consumer n) : coupling.pair.Reads n := by
  cases h with
  | begins hr => exact .start hr
  | resumes hr => exact .resume hr

theorem Turn.pair_turn (t : coupling.Turn consumer party next) :
    ∃ events, coupling.pair.Turn next.pair events := by
  cases t with
  | wrote ho ht => exact ⟨_, .wrote ho.writes ht⟩
  | refused ho ht => exact ⟨_, .refused ho.writes ht⟩
  | writeWaits ho ht => exact ⟨_, .writeWaits ho.writes ht⟩
  | dropWriter hw => exact ⟨_, .dropWriter hw⟩
  | read hd ht => exact ⟨_, .read hd.reads ht⟩
  | readEnded hd ht => exact ⟨_, .readEnded hd.reads ht⟩
  | readWaits hd ht => exact ⟨_, .readWaits hd.reads ht⟩
  | dropReader hr => exact ⟨_, .dropReader hr⟩

/-- What is left of the writer's program: writes, and then the handle is given up. -/
inductive Scripted : Writing → List Action → Prop
  | writing {writing : Writing} (hw : writing ≠ .gone) (chunks : List (List UInt8)) :
    Scripted writing (chunks.map .write ++ [.dropWriter])
  | gone : Scripted .gone []

theorem Scripted.exists_chunks {writing : Writing} {script : List Action}
    (h : Scripted writing script) (hw : writing ≠ .gone) :
    ∃ chunks : List (List UInt8), script = chunks.map .write ++ [.dropWriter] := by
  cases h with
  | writing _ chunks => exact ⟨chunks, rfl⟩
  | gone => exact absurd rfl hw

theorem Scripted.eq_nil {script : List Action} (h : Scripted .gone script) : script = [] := by
  cases h with
  | writing hw => exact absurd rfl hw
  | gone => rfl

theorem turn_writeTurn {data left : List UInt8} {script : List Action}
    (ho : coupling.Offers data left script) :
    coupling.Turn consumer .writer ((coupling.pair.writeTurn data left).2.foldl (tell consumer)
      { coupling with pair := (coupling.pair.writeTurn data left).1, script }) := by
  have ht := offer_turn coupling.pair.buffer left
  simp only [Pair.writeTurn]
  split
  · next heq => rw [heq] at ht; exact .wrote ho ht
  · next heq => rw [heq] at ht; exact .refused ho ht
  · next heq => rw [heq] at ht; exact .writeWaits ho ht

theorem turn_readTurn {n : Nat} (hd : coupling.Demands consumer n) :
    coupling.Turn consumer .reader ((coupling.pair.readTurn n).2.foldl (tell consumer)
      { coupling with pair := (coupling.pair.readTurn n).1 }) := by
  have ht := take_turn coupling.pair.buffer n
  simp only [Pair.readTurn]
  split
  · next heq => rw [heq] at ht; exact .read hd ht
  · next heq => rw [heq] at ht; exact .readEnded hd ht
  · next heq => rw [heq] at ht; exact .readWaits hd ht

/-- **Turns are turns of the pair.** -/
theorem turn_of_turn (hs : Scripted coupling.pair.writing coupling.script)
    (h : coupling.turn consumer party = some next) : coupling.Turn consumer party next := by
  simp only [turn, next?, Option.bind_eq_bind, Option.pure_def] at h
  cases party with
  | writer =>
    cases hw : coupling.pair.writing with
    | idle =>
      obtain ⟨chunks, hscript⟩ := hs.exists_chunks (by simp [hw])
      cases chunks with
      | nil =>
        simp only [hw, hscript, List.map_nil, List.nil_append, List.head?_cons, Pair.step,
          scriptAfter, List.tail_cons, Option.bind_some, List.foldl_nil, Option.some.injEq] at h
        exact h ▸ .dropWriter hw hscript
      | cons chunk chunks =>
        simp only [hw, hscript, List.map_cons, List.cons_append, List.head?_cons, Pair.step,
          scriptAfter, List.tail_cons, Option.bind_some, Option.some.injEq] at h
        exact h ▸ turn_writeTurn (.begins hw hscript)
    | waiting data left =>
      simp only [hw, Pair.step, scriptAfter, Option.bind_some, Option.some.injEq] at h
      exact h ▸ turn_writeTurn (.resumes hw)
    | gone => simp [hw] at h
  | reader =>
    cases hr : coupling.pair.reading with
    | idle =>
      cases hd : consumer.demand coupling.reader with
      | some n =>
        simp only [hr, hd, Pair.step, scriptAfter, Option.bind_some, Option.some.injEq] at h
        exact h ▸ turn_readTurn (.begins hr hd)
      | none =>
        simp only [hr, hd, Pair.step, scriptAfter, Option.bind_some, List.foldl_nil,
          Option.some.injEq] at h
        exact h ▸ .dropReader hr hd
    | waiting n =>
      simp only [hr, Pair.step, scriptAfter, Option.bind_some, Option.some.injEq] at h
      exact h ▸ turn_readTurn (.resumes hr)
    | gone => simp [hr] at h

/-! ## What holds between the turns -/

/-- What the reader may still get: what is held, and what is still to write. -/
def coming (coupling : Coupling ρ) : List UInt8 :=
  coupling.pair.buffer.contents ++ coupling.pair.writing.left ++
    coupling.script.flatMap Action.data

/-- How many writes there are, ended, in progress and to come. -/
def writes (coupling : Coupling ρ) : Nat :=
  coupling.written.size + coupling.pair.writing.pending +
    (coupling.script.map Action.writes).sum

/-- Both handles are given up. -/
def Over (coupling : Coupling ρ) : Prop :=
  coupling.pair.writing = .gone ∧ coupling.pair.reading = .gone

instance (coupling : Coupling ρ) : Decidable coupling.Over :=
  inferInstanceAs (Decidable (_ ∧ _))

/-- What holds of the two programs between their turns. -/
structure Sound (capacity : Nat) (consumer : Consumer ρ) (coupling : Coupling ρ) : Prop where
  coherent : coupling.pair.Coherent capacity
  script : Scripted coupling.pair.writing coupling.script
  closed : coupling.pair.buffer.closed = true ↔ coupling.pair.writing = .gone
  /-- The reader's program is at its end only after the end of the stream. -/
  drained : consumer.demand coupling.reader = none →
    coupling.pair.buffer.closed = true ∧ coupling.pair.buffer.ring.size = 0
  waits : ∀ n, coupling.pair.reading = .waiting n → consumer.demand coupling.reader = some n
  gone : coupling.pair.reading = .gone → consumer.demand coupling.reader = none
  /-- No write is refused. -/
  written : ∀ result ∈ coupling.written, result = .ok ()

theorem Sound.demand (h : coupling.Sound capacity consumer) {n : Nat}
    (hd : coupling.Demands consumer n) : consumer.demand coupling.reader = some n := by
  cases hd with
  | begins _ hd => exact hd
  | resumes hr => exact h.waits n hr

theorem Sound.alive (h : coupling.Sound capacity consumer) {data left : List UInt8}
    {script : List Action} (ho : coupling.Offers data left script) :
    coupling.pair.buffer.closed = false ∧ coupling.pair.buffer.readerGone = false := by
  have hopen : coupling.pair.buffer.closed = false := by
    rw [← Bool.not_eq_true, h.closed]
    cases ho with
    | begins hw | resumes hw => simp [hw]
  refine ⟨hopen, ?_⟩
  rw [← Bool.not_eq_true, h.coherent.readerGone]
  intro hgone
  simp [(h.drained (h.gone hgone)).1] at hopen

theorem Sound.not_refused (h : coupling.Sound capacity consumer) {data left rest : List UInt8}
    {script : List Action} {buffer : Buffer} {error : BufferError}
    (ho : coupling.Offers data left script)
    (ht : OfferTurn coupling.pair.buffer left buffer (.refused error rest)) : False := by
  obtain ⟨hopen, halive⟩ := h.alive ho
  cases ht with
  | closed _ hc => simp [hc] at hopen
  | readerGone _ _ hg => simp [hg] at halive

theorem Scripted.offers {data left : List UInt8} {script : List Action} {writing : Writing}
    (h : Scripted coupling.pair.writing coupling.script)
    (ho : coupling.Offers data left script) (hw : writing ≠ .gone) : Scripted writing script := by
  cases ho with
  | begins hidle hs =>
    obtain ⟨chunks, hscript⟩ := h.exists_chunks (by simp [hidle])
    rw [hs] at hscript
    cases chunks with
    | nil => simp at hscript
    | cons chunk chunks =>
      rw [List.tail_eq_of_cons_eq hscript]
      exact .writing hw chunks
  | resumes hwait =>
    obtain ⟨chunks, hscript⟩ := h.exists_chunks (by simp [hwait])
    rw [hscript]
    exact .writing hw chunks

/-- **Every turn keeps the invariant.** -/
theorem Sound.turn {rank : ρ → Nat} (hp : consumer.Patient rank)
    (h : coupling.Sound capacity consumer) (t : coupling.Turn consumer party next) :
    next.Sound capacity consumer := by
  obtain ⟨events, hpair⟩ := t.pair_turn
  have hc := h.coherent.turn hpair
  cases t with
  | refused ho ht => exact (h.not_refused ho ht).elim
  | wrote ho ht =>
    have hopen := (h.alive ho).1
    exact {
      coherent := hc
      script := h.script.offers ho nofun
      closed := by simp [ht.flags.1, hopen]
      drained := fun hd => by simp [(h.drained hd).1] at hopen
      waits := h.waits
      gone := h.gone
      written := fun result hr => by
        rcases Array.mem_push.mp hr with hold | rfl
        · exact h.written result hold
        · rfl }
  | writeWaits ho ht =>
    have hopen := (h.alive ho).1
    exact {
      coherent := hc
      script := h.script.offers ho nofun
      closed := by simp [ht.flags.1, hopen]
      drained := fun hd => by simp [(h.drained hd).1] at hopen
      waits := h.waits
      gone := h.gone
      written := h.written }
  | dropWriter hw hs =>
    obtain ⟨hring, hclosed, -, -, -⟩ := close_frame coupling.pair.buffer
    exact {
      coherent := hc
      script := .gone
      closed := by simp [hclosed]
      drained := fun hd => ⟨hclosed, (congrArg Ring.size hring).trans (h.drained hd).2⟩
      waits := h.waits
      gone := h.gone
      written := h.written }
  | read hd ht =>
    have hdemand := h.demand hd
    exact {
      coherent := hc
      script := h.script
      closed := by rw [ht.flags.1]; exact h.closed
      drained := fun hnone => absurd hnone (hp.stays _ (by simp [hdemand]))
      waits := nofun
      gone := nofun
      written := h.written }
  | readEnded hd ht =>
    exact {
      coherent := hc
      script := h.script
      closed := by rw [ht.flags.1]; exact h.closed
      drained := fun _ => ht.eq_nil_of_ended
      waits := nofun
      gone := nofun
      written := h.written }
  | readWaits hd ht =>
    have hdemand := h.demand hd
    exact {
      coherent := hc
      script := h.script
      closed := by rw [ht.flags.1]; exact h.closed
      drained := fun hnone => by simp [hdemand] at hnone
      waits := fun n hn => by cases hn; exact hdemand
      gone := nofun
      written := h.written }
  | dropReader hr hd =>
    exact {
      coherent := hc
      script := h.script
      closed := h.closed
      drained := h.drained
      waits := nofun
      gone := fun _ => hd
      written := h.written }

theorem Turn.writes (t : coupling.Turn consumer party next) : next.writes = coupling.writes := by
  have hoffers : ∀ {data left script}, coupling.Offers data left script →
      (coupling.script.map Action.writes).sum + coupling.pair.writing.pending =
        (script.map Action.writes).sum + 1 := by
    intro data left script ho
    cases ho with
    | begins hw hs => simp [hw, hs, Nat.add_comm]
    | resumes hw => simp [hw]
  cases t with
  | wrote ho | refused ho | writeWaits ho =>
    have := hoffers ho
    simp only [Coupling.writes, Array.size_push, Writing.pending_idle, Writing.pending_waiting]
    omega
  | dropWriter hw hs => simp [Coupling.writes, hw, hs]
  | read | readEnded | readWaits | dropReader => rfl

/-! ## What the reader is told -/

/-- What a turn tells the reader, and what it may still get after that. -/
inductive Told (consumer : Consumer ρ) (coupling next : Coupling ρ) : Prop
  | nothing (hr : next.reader = coupling.reader) (hc : next.coming = coupling.coming)
  | bytes {n : Nat} {bytes : List UInt8} (hd : consumer.demand coupling.reader = some n)
      (hne : bytes ≠ []) (hle : bytes.length ≤ n)
      (hr : next.reader = consumer.receive coupling.reader (some bytes))
      (hc : coupling.coming = bytes ++ next.coming)
  | ended (hd : consumer.demand coupling.reader ≠ none)
      (hr : next.reader = consumer.receive coupling.reader none)
      (hc : coupling.coming = []) (hc' : next.coming = [])

/-- A turn of the writer brings bytes from behind the ring into it. -/
theorem Offers.coming {data left : List UInt8} {script : List Action} {buffer : Buffer}
    {result : Offered} (ho : coupling.Offers data left script)
    (ht : OfferTurn coupling.pair.buffer left buffer result) :
    buffer.contents ++ result.left ++ script.flatMap Action.data = coupling.coming := by
  rw [ht.contents, Coupling.coming]
  cases ho with
  | begins hw hs => simp [hw, hs]
  | resumes hw => simp [hw]

theorem coming_eq_nil (h : coupling.Sound capacity consumer)
    (hc : coupling.pair.buffer.closed = true) (he : coupling.pair.buffer.ring.size = 0) :
    coupling.coming = [] := by
  have hgone := h.closed.mp hc
  have hscript := h.script
  rw [hgone] at hscript
  have hcontents : coupling.pair.buffer.contents = [] :=
    List.eq_nil_of_length_eq_zero ((Ring.length_contents _).trans he)
  rw [Coupling.coming, hcontents, hgone, hscript.eq_nil]
  rfl

/-- **Nothing is lost, doubled or out of order.** -/
theorem Sound.told {rank : ρ → Nat} (hp : consumer.Patient rank)
    (h : coupling.Sound capacity consumer) (t : coupling.Turn consumer party next) :
    Told consumer coupling next := by
  have hs := h.turn hp t
  cases t with
  | refused ho ht => exact (h.not_refused ho ht).elim
  | wrote ho ht => exact .nothing rfl (ho.coming ht)
  | writeWaits ho ht => exact .nothing rfl (ho.coming ht)
  | dropWriter hw hscript =>
    refine .nothing rfl ?_
    obtain ⟨hring, -, -, -, -⟩ := close_frame coupling.pair.buffer
    simp [Coupling.coming, Buffer.contents, hring, hw, hscript]
  | read hd ht =>
    have hdemand := h.demand hd
    obtain ⟨hne, hle, hcontents⟩ := ht.contents (hp.demand_pos hdemand)
    refine .bytes hdemand hne hle rfl ?_
    simp only [Coupling.coming, hcontents, List.append_assoc]
  | readEnded hd ht =>
    have hdemand := h.demand hd
    obtain ⟨hclosed, hempty⟩ := ht.eq_nil_of_ended
    have hnil := coming_eq_nil hs hclosed hempty
    refine .ended (by simp [hdemand]) rfl ?_ hnil
    cases ht
    exact hnil
  | readWaits hd ht => cases ht; exact .nothing rfl rfl
  | dropReader => exact .nothing rfl rfl

end Coupling

end Parley.Buffer
