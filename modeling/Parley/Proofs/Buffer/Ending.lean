import Parley.Proofs.Buffer.Coupling
import Parley.Proofs.Inevitable

/-!
# Two programs come to their ends

A writer's program and a reader's, with any schedule of their turns.

**Runs** (`Coupling.Sound.run`). What every turn keeps holds after every schedule.

**Progress** (`Coupling.Sound.inevitable_over`, `Coupling.Sound.over_finish`). Whoever does not wait
can take a turn, never do both wait, and every turn makes the coupling lighter. So both handles are
given up in the end, and a run that lets the writer go first needs no more turns than there is
weight.
-/

namespace Parley.Buffer.Coupling

variable {ρ : Type} {consumer : Consumer ρ} {coupling next : Coupling ρ} {capacity : Nat}
  {party : Party}

/-! ## Runs -/

theorem Sound.run {rank : ρ → Nat} (hp : consumer.Patient rank) {P : Coupling ρ → Prop}
    (hturn : ∀ {coupling next : Coupling ρ} {party}, coupling.Sound capacity consumer →
      P coupling → coupling.Turn consumer party next → P next)
    (h : coupling.Sound capacity consumer) (hP : P coupling) (schedule : List Party) :
    (coupling.run consumer schedule).Sound capacity consumer ∧
      P (coupling.run consumer schedule) := by
  induction schedule generalizing coupling with
  | nil => exact ⟨h, hP⟩
  | cons party schedule ih =>
    simp only [Coupling.run, List.foldl_cons]
    cases hnext : coupling.turn consumer party with
    | none => exact ih h hP
    | some next =>
      have t := turn_of_turn h.script hnext
      exact ih (h.turn hp t) (hturn h hP t)

/-! ## Progress -/

/-- A party that does not wait, or no longer, takes its turn. -/
def Advances (consumer : Consumer ρ) (coupling next : Coupling ρ) : Prop :=
  ∃ party, coupling.awake party = true ∧ coupling.turn consumer party = some next

/-- How much there is still to do. -/
def weight (rank : ρ → Nat) (coupling : Coupling ρ) : Nat :=
  3 * (coupling.pair.writing.left.length + (coupling.script.flatMap Action.data).length) +
    coupling.pair.writing.pending + 2 * coupling.script.length + coupling.pair.buffer.weight +
    if coupling.pair.reading = .gone then 0 else rank coupling.reader

/-- A write that is started or gone on with weighs what its bytes weigh, and more. -/
theorem Offers.weight_le {data left : List UInt8} {script : List Action}
    (ho : coupling.Offers data left script) :
    3 * (left.length + (script.flatMap Action.data).length) + 2 * script.length + 1 ≤
      3 * (coupling.pair.writing.left.length + (coupling.script.flatMap Action.data).length) +
        coupling.pair.writing.pending + 2 * coupling.script.length := by
  cases ho with
  | begins hw hs =>
    simp only [hw, hs, Writing.left_idle, Writing.pending_idle, List.flatMap_cons,
      Action.data_write, List.length_append, List.length_cons, List.length_nil]
    omega
  | resumes hw =>
    simp only [hw, Writing.left_waiting, Writing.pending_waiting]
    omega

theorem Demands.not_gone {n : Nat} (hd : coupling.Demands consumer n) :
    coupling.pair.reading ≠ .gone := by
  cases hd with
  | begins hr | resumes hr => simp [hr]

theorem Turn.weight_lt {rank : ρ → Nat} (hp : consumer.Patient rank)
    (h : coupling.Sound capacity consumer) (t : coupling.Turn consumer party next)
    (ha : coupling.awake party = true) : next.weight rank < coupling.weight rank := by
  cases t with
  | refused ho ht => exact (h.not_refused ho ht).elim
  | wrote ho ht =>
    have hbuffer := ht.weight_le (by simpa [awake] using ha)
    have hscript := ho.weight_le
    simp only [Offered.left, List.length_nil] at hbuffer
    simp only [weight, Writing.left_idle, Writing.pending_idle, List.length_nil]
    omega
  | writeWaits ho ht =>
    have hbuffer := ht.weight_le (by simpa [awake] using ha)
    have hscript := ho.weight_le
    simp only [Offered.left, Offered.stance, Stance.weight_waiting] at hbuffer
    simp only [weight, Writing.left_waiting, Writing.pending_waiting]
    omega
  | dropWriter hw hs =>
    have hbuffer := weight_close_le coupling.pair.buffer
    simp only [weight, hw, hs, Writing.left_idle, Writing.left_gone, Writing.pending_idle,
      Writing.pending_gone, List.length_cons, List.length_nil, List.flatMap_cons,
      List.flatMap_nil, Action.data_dropWriter, List.length_append]
    omega
  | @read _ bytes _ hd ht =>
    have hbuffer := (ht.weight_le (hp.demand_pos (h.demand hd)) (by simpa [awake] using ha)).2
      (by simp)
    have hrank := hp.rank_some coupling.reader bytes
    simp only [weight, if_neg hd.not_gone, reduceCtorEq, if_false]
    omega
  | readEnded hd ht =>
    have hdemand := h.demand hd
    have hbuffer := (ht.weight_le (hp.demand_pos hdemand) (by simpa [awake] using ha)).1
    have hrank : rank (consumer.receive coupling.reader none) < rank coupling.reader :=
      hp.rank_none (by simp [hdemand])
    simp only [weight, if_neg hd.not_gone, reduceCtorEq, if_false]
    omega
  | readWaits hd ht =>
    have hbuffer := (ht.weight_le (hp.demand_pos (h.demand hd)) (by simpa [awake] using ha)).2
      (by simp)
    simp only [weight, if_neg hd.not_gone, reduceCtorEq, if_false]
    omega
  | dropReader hr =>
    have hbuffer := weight_dropReader_le coupling.pair.buffer
    have hrank := hp.two_le coupling.reader
    simp only [weight, hr, reduceCtorEq, if_false, if_true]
    omega

theorem isSome_turn_writer (hs : Scripted coupling.pair.writing coupling.script)
    (hw : coupling.pair.writing ≠ .gone) : (coupling.turn consumer .writer).isSome := by
  cases hwriting : coupling.pair.writing with
  | idle =>
    obtain ⟨chunks, hscript⟩ := hs.exists_chunks hw
    cases chunks with
    | nil | cons => simp [turn, next?, hwriting, hscript, Pair.step]
  | waiting data left => simp [turn, next?, hwriting, Pair.step]
  | gone => exact absurd hwriting hw

theorem isSome_turn_reader (hr : coupling.pair.reading ≠ .gone) :
    (coupling.turn consumer .reader).isSome := by
  cases hreading : coupling.pair.reading with
  | idle =>
    cases hd : consumer.demand coupling.reader with
    | some n | none => simp [turn, next?, hreading, hd, Pair.step]
  | waiting n => simp [turn, next?, hreading, Pair.step]
  | gone => exact absurd hreading hr

/-- **Somebody can go on.** A writer waits only at a full ring, where a reader that is still there
does not wait. -/
theorem Sound.exists_advance (h : coupling.Sound capacity consumer) (hover : ¬coupling.Over) :
    ∃ next, Advances consumer coupling next := by
  have hreader : coupling.pair.reading ≠ .gone → coupling.pair.buffer.reader ≠ .waiting →
      ∃ next, Advances consumer coupling next := by
    intro hr hawake
    obtain ⟨next, hnext⟩ := Option.isSome_iff_exists.mp (isSome_turn_reader hr)
    exact ⟨next, .reader, by simpa [awake] using hawake, hnext⟩
  by_cases hgone : coupling.pair.writing = .gone
  · refine hreader (fun hr => hover ⟨hgone, hr⟩) fun hwait => ?_
    have hopen := (h.coherent.justified.reader hwait).2
    simp [h.closed.mpr hgone] at hopen
  by_cases hwait : coupling.pair.buffer.writer = .waiting
  · obtain ⟨hfull, -, halive⟩ := h.coherent.justified.writer hwait
    refine hreader (fun hr => ?_) fun hr => ?_
    · simp [h.coherent.readerGone.mpr hr] at halive
    · have hempty := (h.coherent.justified.reader hr).1
      have hpos := coupling.pair.buffer.ring.capacity_pos
      simp only [Ring.room] at hfull
      omega
  · obtain ⟨next, hnext⟩ := Option.isSome_iff_exists.mp (isSome_turn_writer h.script hgone)
    exact ⟨next, .writer, by simpa [awake] using hwait, hnext⟩

theorem advances_of_advance (h : coupling.advance consumer = some next) :
    Advances consumer coupling next := by
  simp only [advance] at h
  split at h
  · next hawake =>
    cases hw : coupling.turn consumer .writer with
    | some mid =>
      rw [hw] at h
      exact ⟨.writer, hawake, hw.trans h⟩
    | none =>
      rw [hw] at h
      split at h
      · next hr => exact ⟨.reader, hr, h⟩
      · cases h
  · split at h
    · next hr => exact ⟨.reader, hr, h⟩
    · cases h

theorem isSome_advance (h : Advances consumer coupling next) :
    (coupling.advance consumer).isSome := by
  obtain ⟨party, hawake, hnext⟩ := h
  cases party with
  | writer => simp [advance, hawake, hnext]
  | reader => simp [advance, hawake, hnext]

section Ends

variable {rank : ρ → Nat} {P : Coupling ρ → Prop}

/-- **The programs come to their ends**, whoever goes on when both can. -/
theorem Sound.inevitable_over (hp : consumer.Patient rank)
    (hturn : ∀ {coupling next : Coupling ρ} {party}, coupling.Sound capacity consumer →
      P coupling → coupling.Turn consumer party next → P next)
    (h : coupling.Sound capacity consumer) (hP : P coupling) :
    Inevitable (Advances consumer)
      (fun coupling => coupling.Over ∧ coupling.Sound capacity consumer ∧ P coupling) coupling := by
  refine inevitable_of_weight (weight rank)
    (fun coupling => coupling.Sound capacity consumer ∧ P coupling) ?_ ?_ ⟨h, hP⟩
  · intro coupling hinv
    by_cases hover : coupling.Over
    · exact .inl ⟨hover, hinv⟩
    · exact .inr (hinv.1.exists_advance hover)
  · intro coupling next hinv hadvance
    obtain ⟨party, hawake, hnext⟩ := hadvance
    have t := turn_of_turn hinv.1.script hnext
    exact .inr ⟨⟨hinv.1.turn hp t, hturn hinv.1 hinv.2 t⟩, t.weight_lt hp hinv.1 hawake⟩

/-- A run of as many turns as there is weight is enough. -/
theorem Sound.over_finish (hp : consumer.Patient rank)
    (hturn : ∀ {coupling next : Coupling ρ} {party}, coupling.Sound capacity consumer →
      P coupling → coupling.Turn consumer party next → P next) {turns : Nat}
    (h : coupling.Sound capacity consumer) (hP : P coupling)
    (hw : coupling.weight rank ≤ turns) :
    (coupling.finish consumer turns).Over ∧
      (coupling.finish consumer turns).Sound capacity consumer ∧
      P (coupling.finish consumer turns) := by
  induction turns generalizing coupling with
  | zero =>
    have hover : coupling.Over := by
      refine Decidable.byContradiction fun hover => ?_
      obtain ⟨next, party, hawake, hnext⟩ := h.exists_advance hover
      have hlt := (turn_of_turn h.script hnext).weight_lt hp h hawake
      omega
    exact ⟨hover, h, hP⟩
  | succ turns ih =>
    rw [finish]
    cases hadvance : coupling.advance consumer with
    | none =>
      refine ⟨Decidable.byContradiction fun hover => ?_, h, hP⟩
      obtain ⟨next, hnext⟩ := h.exists_advance hover
      have hsome := isSome_advance hnext
      simp [hadvance] at hsome
    | some next =>
      obtain ⟨party, hawake, hnext⟩ := advances_of_advance hadvance
      have t := turn_of_turn h.script hnext
      have hlt := t.weight_lt hp h hawake
      exact ih (h.turn hp t) (hturn h hP t) (by omega)

end Ends

end Parley.Buffer.Coupling
