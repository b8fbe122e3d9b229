import Parley.Proofs.Transport.Progress

/-!
# Leaving a connection

An owner that gives its connection up shuts the socket down, gives up its end of the buffer, and
waits for the pump to finish. The pump may be anywhere then: in a read of the socket, in the middle
of a chunk at a full ring, between two turns, or already done.

**The way out** (`Released.step`). Nothing is accepted from a pump whose owner has given up its end
of the buffer, and it never has nothing to write (`Loaded`); so its next write is refused, and it
closes. Before that it can have read the socket once more, if it was at it: a piece that this read
brings is refused, and an end or a failure leads to the close as well.

**The way there** (`Course.Live.inevitable_gone`). The three turns of the owner come in any order
with those of the pump. A pump that waits for room holds none of the first two up, and the second
one frees it; a pump in a read of the socket is brought an end when the first has been taken, or
what had arrived before.

**Theorem (`leaving_ends`).** So the wait for the pump comes to its end.
-/

namespace Parley.Transport

open Buffer (OfferTurn)

/-- The owner has given up its end of the buffer. -/
def Owner.HasReleased : Owner → Prop
  | joining | gone => True
  | idle | reading _ | ending _ | leaving | releasing => False

/-- The read of the socket is just made again. -/
def isInterrupted : Except Failure (List UInt8) → Bool
  | .ok _ => false
  | .error failure => failure.kind = .interrupted

/-- What the reads of the socket brought, without those that were made again. -/
def Move.heard (moves : List Move) : List (Except Failure (List UInt8)) :=
  (Move.arrivals moves).filter fun arrival => !isInterrupted arrival

theorem Move.heard_append (moves more : List Move) :
    heard (moves ++ more) = heard moves ++ heard more := by
  rw [heard, arrivals, List.filterMap_append, List.filter_append]
  rfl

/-- How many more times the pump can hear from the socket once nothing is accepted from it. -/
def Pump.readsLeft : Pump → Nat
  | receiving => 1
  | forwarding _ | parked | reporting _ | closing | finished => 0

namespace Intake

variable {intake intake' : Intake} {move : Move} {report : Option Report} {capacity : Nat}

/-! ## Writes of the pump -/

/-- What the pump has still to write of a chunk is not nothing. -/
def Loaded (intake : Intake) : Prop := ∀ data left, intake.Forwards data left → left ≠ []

theorem Loaded.of_same (h : intake.Loaded) (hp : intake'.pump = intake.pump)
    (hw : intake'.pair.writing = intake.pair.writing) : intake'.Loaded := by
  intro data left hf
  cases hf with
  | start hforward hidle => exact h _ _ (.start (hp ▸ hforward) (hw ▸ hidle))
  | resume hparked hwait => exact h _ _ (.resume (hp ▸ hparked) (hw ▸ hwait))

theorem loaded_of_not_forwards (hf : ∀ chunk, intake.pump ≠ .forwarding chunk)
    (hp : intake.pump ≠ .parked) : intake.Loaded := by
  intro data left h
  cases h with
  | start hforward => exact absurd hforward (hf _)
  | resume hparked => exact absurd hparked hp

theorem loaded_of_waits {left rest : List UInt8} {buffer buffer' : Buffer}
    (ht : OfferTurn buffer left buffer' (.waiting rest)) : rest ≠ [] := by
  cases ht with
  | full hne => exact hne
  | part _ _ _ hr =>
    intro hnil
    have hlen := congrArg List.length hnil
    simp only [List.length_drop, List.length_nil] at hlen
    omega

theorem Loaded.step (hs : intake.Sound capacity) (h : intake.Loaded)
    (hstep : intake.step move = some (intake', report)) : intake'.Loaded := by
  cases hs.turn_of_step hstep with
  | arrives ha =>
    cases ha with
    | ended | failed => exact loaded_of_not_forwards nofun nofun
    | interrupted => exact h
    | bytes _ hne =>
      intro data left hf
      cases hf with
      | start hforward => cases hforward; exact hne
      | resume hparked => cases hparked
  | pump ht =>
    cases ht with
    | wrote | refused | reports | closes => exact loaded_of_not_forwards nofun nofun
    | waits _ ht =>
      intro data left hf
      cases hf with
      | start hforward => cases hforward
      | resume _ hwait => cases hwait; exact loaded_of_waits ht
  | owner ht => cases ht <;> exact h.of_same rfl rfl
  | read | leave => exact h.of_same rfl rfl

theorem loaded_ofConfig? {config : Config} (h : ofConfig? config = some intake) :
    intake.Loaded := by
  simp only [ofConfig?, Option.map_eq_some_iff] at h
  obtain ⟨pair, -, rfl⟩ := h
  exact loaded_of_not_forwards (by simp) (by simp)

theorem Loaded.run {moves : List Move} {reports : List Report} (hs : intake.Sound capacity)
    (h : intake.Loaded) (hrun : intake.run moves = some (intake', reports)) :
    intake'.Sound capacity ∧ intake'.Loaded :=
  run_step (P := fun intake _ => intake.Sound capacity ∧ intake.Loaded)
    (fun h hstep => ⟨h.1.step hstep, h.2.step h.1 hstep⟩) [] ⟨hs, h⟩ hrun

/-! ## After the owner's end of the buffer is given up -/

/-- The owner has given up its end of the buffer, and the pump has not. -/
structure Released (capacity : Nat) (intake : Intake) : Prop where
  sound : intake.Sound capacity
  loaded : intake.Loaded
  owner : intake.owner.HasReleased

theorem Released.readerGone (h : intake.Released capacity) :
    intake.pair.buffer.readerGone = true := by
  rw [h.sound.coherent.readerGone]
  have hfits := h.sound.owner
  have howner := h.owner
  cases ho : intake.owner with
  | joining | gone =>
    rw [ho] at hfits
    exact hfits
  | idle | reading | ending | leaving | releasing =>
    rw [ho] at howner
    cases howner

/-- A pump that has still something to write finds the buffer open: it closes it itself. -/
theorem Released.opened (h : intake.Released capacity) {data left : List UInt8}
    (hf : intake.Forwards data left) : intake.pair.buffer.closed = false := by
  rw [← Bool.not_eq_true, h.sound.closed]
  exact fun hfin => hf.underWay (.inr hfin)

/-- **Every write is refused.** -/
theorem Released.refuses {data left : List UInt8} {buffer : Buffer} {result : Offered}
    (h : intake.Released capacity) (hf : intake.Forwards data left)
    (ht : OfferTurn intake.pair.buffer left buffer result) :
    result = .refused .readerGone left := by
  have hopen := h.opened hf
  have hgone := h.readerGone
  cases ht with
  | nothing hnil => exact absurd hnil (h.loaded data left hf)
  | closed _ hc => simp [hc] at hopen
  | readerGone => rfl
  | full _ _ ha | whole _ _ ha | part _ ha => simp [ha] at hgone

/-- **A pump without a reader is on its way out.** It hears from the socket once at most. -/
theorem Released.step (h : intake.Released capacity)
    (hstep : intake.step move = some (intake', report)) :
    intake'.Released capacity ∧
      (Move.heard [move]).length + intake'.pump.readsLeft ≤ intake.pump.readsLeft := by
  have hsound := h.sound.step hstep
  have hloaded := h.loaded.step h.sound hstep
  have howner := h.owner
  cases h.sound.turn_of_step hstep with
  | arrives ha =>
    refine ⟨⟨hsound, hloaded, ?_⟩, ?_⟩
    · cases ha <;> exact howner
    · cases ha with
      | ended hp | bytes hp => simp [Move.heard, Move.arrivals, isInterrupted, Pump.readsLeft, hp]
      | failed hp hk =>
        simp [Move.heard, Move.arrivals, isInterrupted, Pump.readsLeft, hp, hk]
      | interrupted hp hk =>
        simp [Move.heard, Move.arrivals, isInterrupted, hk]
  | pump ht =>
    cases ht with
    | wrote hf ht => exact nomatch h.refuses hf ht
    | waits hf ht => exact nomatch h.refuses hf ht
    | refused | reports | closes =>
      exact ⟨⟨hsound, hloaded, howner⟩, Nat.zero_le _⟩
  | owner ht =>
    cases ht with
    | joins => exact ⟨⟨hsound, hloaded, trivial⟩, Nat.le_of_eq (Nat.zero_add _)⟩
    | adds ho | completes ho | meetsEnd ho | waits ho | tellsFailure ho | tells ho | shuts ho
    | releases ho =>
      rw [ho] at howner
      cases howner
  | read ho | leave ho =>
    rw [ho] at howner
    cases howner

theorem Released.run {moves : List Move} {reports : List Report} (h : intake.Released capacity)
    (hrun : intake.run moves = some (intake', reports)) :
    intake'.Released capacity ∧ (Move.heard moves).length ≤ 1 := by
  let inv (next : Intake) (past : List Move) : Prop := next.Released capacity ∧
    (Move.heard past).length + next.pump.readsLeft ≤ intake.pump.readsLeft
  have hinv : inv intake' ([] ++ moves) := by
    refine run_step ?_ [] ⟨h, Nat.le_of_eq (Nat.zero_add _)⟩ hrun
    intro mid past move next report hmid hstep
    obtain ⟨hreleased, hle⟩ := hmid
    obtain ⟨hnext, hlt⟩ := hreleased.step hstep
    refine ⟨hnext, ?_⟩
    rw [Move.heard_append, List.length_append]
    omega
  have hone : intake.pump.readsLeft ≤ 1 := by
    cases intake.pump with
    | receiving => exact Nat.le_refl _
    | forwarding | parked | reporting | closing | finished => exact Nat.zero_le _
  exact ⟨hinv.1, by have := hinv.2; simp only [List.nil_append] at this; omega⟩

theorem Released.closes {data left : List UInt8} (h : intake.Released capacity)
    (hf : intake.Forwards data left) :
    (intake.pair.writeTurn data left).2 = [.wrote data left (.error .readerGone)] ∧
      ∃ next, intake.pumpTurn = some next ∧ next.pump = .closing := by
  have hoffer := h.refuses hf (Buffer.offer_turn intake.pair.buffer left)
  have hevents : (intake.pair.writeTurn data left).2 =
      [.wrote data left (.error .readerGone)] := by
    simp only [Buffer.Pair.writeTurn]
    split <;> next heq => rw [heq] at hoffer; cases hoffer <;> rfl
  refine ⟨hevents, ?_⟩
  have hne : intake.pump ≠ .receiving ∧ intake.pump ≠ .finished := by
    cases hf with
    | start hp | resume hp => simp [hp]
  obtain ⟨next, ht⟩ := h.sound.exists_pumpTurn hne.1 hne.2
  refine ⟨next, ht, ?_⟩
  cases turn_of_pumpTurn ht with
  | wrote hf hoffered | waits hf hoffered => cases h.refuses hf hoffered
  | refused | reports => rfl
  | closes hp => exact absurd (.inl hp) hf.underWay

end Intake

/-! ## The join -/

namespace Course

variable {course next : Course} {capacity : Nat}

theorem Live.advances (h : course.Live capacity) (ha : course.Advances next) :
    next.Live capacity := by
  cases ha with
  | arrive ha =>
    exact ⟨h.sound.arrives (Intake.arrives_of_arrive ha), fun chunk hm =>
      h.feasible chunk (List.mem_cons_of_mem _ hm)⟩
  | shut _ ha => exact h.shut ha
  | pump _ ht => exact ⟨h.sound.pumpTurn (Intake.turn_of_pumpTurn ht), h.feasible⟩
  | owner _ ht =>
    exact ⟨h.sound.ownerTurn (Intake.turn_of_ownerTurn h.sound.owner h.sound.within ht), h.feasible⟩

theorem Advances.leaves (h : course.Advances next) (hs : course.intake.Sound capacity)
    (hl : course.intake.owner.Leaves) :
    next.intake.owner.Leaves ∨ next.intake.owner = .gone ∧ next.intake.pump = .finished := by
  cases h with
  | arrive ha | shut _ ha =>
    cases Intake.arrives_of_arrive ha <;> exact .inl hl
  | pump _ ht => cases Intake.turn_of_pumpTurn ht <;> exact .inl hl
  | @owner intake _ _ _ _ _ ht =>
    have hleaves : intake.owner.Leaves := hl
    cases Intake.turn_of_ownerTurn hs.owner hs.within ht with
    | shuts | releases => exact .inl trivial
    | joins _ hp => exact .inr ⟨rfl, hp⟩
    | adds ho | completes ho | meetsEnd ho | waits ho | tellsFailure ho | tells ho =>
      rw [ho] at hleaves
      cases hleaves

/-- **The wait for the pump comes to its end**, whatever the socket still brings. -/
theorem Live.inevitable_gone (h : course.Live capacity) (hl : course.intake.owner.Leaves) :
    Inevitable Advances
      (fun last => last.intake.owner = .gone ∧ last.intake.pump = .finished) course := by
  refine inevitable_of_weight weight
    (fun course => course.Live capacity ∧ course.intake.owner.Leaves) ?_ ?_ ⟨h, hl⟩
  · intro course hinv
    obtain ⟨hlive, hleaves⟩ := hinv
    rcases hlive.exists_advance hleaves.busy.1 hleaves.busy.2 with ⟨-, -, hreader⟩ | hnext
    · obtain ⟨assembly, ho⟩ := hlive.sound.reading_of_waiting hreader
      rw [ho] at hleaves
      cases hleaves
    · exact .inr hnext
  · intro course next hinv hadvance
    obtain ⟨hlive, hleaves⟩ := hinv
    rcases hadvance.leaves hlive.sound hleaves with hnext | hgone
    · exact .inr ⟨⟨hlive.advances hadvance, hnext⟩, hadvance.weight_lt hlive.sound⟩
    · exact .inl hgone

end Course

namespace Intake

/-- **A connection can always be left.** Wherever the pump is when the owner begins to leave, the
owner's wait for it comes to its end, whatever the socket still brings and whoever goes first. And
once the owner has shut the socket down and given up its end of the buffer, whatever happens then:
the pump does not wait for room; every write that it begins or goes on with has bytes to write, is
refused because the reader has gone, and leads to the close; and it hears from the socket once at
most, reads that are made again apart. -/
theorem leaving_ends {config : Config} {start intake : Intake} {before : List Move}
    {reports : List Report} (hnew : ofConfig? config = some start)
    (hrun : start.run before = some (intake, reports)) (hidle : intake.owner = .idle) :
    ∃ dropped, intake.step .leave = some (dropped, none) ∧
      (∀ script : Arrivals, script.Feasible → Inevitable Course.Advances
        (fun last => last.intake.owner = .gone ∧ last.intake.pump = .finished)
        ⟨dropped, script, reports⟩) ∧
      ∀ moves released told, dropped.run moves = some (released, told) →
        released.owner = .joining →
        ∀ after last later, released.run after = some (last, later) →
          last.pair.buffer.writer ≠ .waiting ∧
          (∀ data left, last.Forwards data left → left ≠ [] ∧
            (last.pair.writeTurn data left).2 = [.wrote data left (.error .readerGone)] ∧
            ∃ next, last.pumpTurn = some next ∧ next.pump = .closing) ∧
          (Move.heard after).length ≤ 1 := by
  obtain ⟨hsound, hloaded⟩ := (loaded_ofConfig? hnew).run (sound_ofConfig? hnew) hrun
  have hleave : intake.step .leave = some ({ intake with owner := .leaving }, none) := by
    simp [Intake.step, hidle]
  have hdropped := hsound.step hleave
  refine ⟨_, hleave, fun script hfeasible => ?_, ?_⟩
  · have hlive : Course.Live config.bufferCapacity
        ⟨{ intake with owner := .leaving }, script, reports⟩ := ⟨hdropped, hfeasible⟩
    exact hlive.inevitable_gone trivial
  · intro moves released told hmoves hjoining after last later hafter
    obtain ⟨hsound', hloaded'⟩ := (hloaded.step hsound hleave).run hdropped hmoves
    have hreleased : released.Released config.bufferCapacity :=
      ⟨hsound', hloaded', by rw [hjoining]; trivial⟩
    obtain ⟨hlast, hheard⟩ := hreleased.run hafter
    refine ⟨hlast.sound.pump_awake (.inr hlast.readerGone), fun data left hf => ?_, hheard⟩
    exact ⟨hlast.loaded data left hf, hlast.closes hf⟩

/-- A pump in the middle of a chunk at a full buffer of two bytes, while the socket brings more. -/
theorem leaving_ends_parked :
    let config : Config := { bufferCapacity := 2, maxFrameSize := 4 }
    ∃ start intake dropped released, ofConfig? config = some start ∧
      start.run [.arrive (.ok [1, 2, 3]), .pump] = some (intake, []) ∧ intake.owner = .idle ∧
      intake.pump = .parked ∧ intake.pair.buffer.writer = .waiting ∧
      intake.step .leave = some (dropped, none) ∧
      Inevitable Course.Advances
        (fun last => last.intake.owner = .gone ∧ last.intake.pump = .finished)
        ⟨dropped, [.ok [4], .error ⟨.interrupted, .bare⟩], []⟩ ∧
      dropped.run [.owner, .owner] = some (released, []) ∧ released.owner = .joining ∧
      (released.pair.writeTurn [1, 2, 3] [3]).2 = [.wrote [1, 2, 3] [3] (.error .readerGone)] ∧
      ∃ next, released.pumpTurn = some next ∧ next.pump = .closing := by
  intro config
  let start : Intake := { max := 4, pair := { buffer := { ring := .empty 2 (by decide) } } }
  have hrun : ∃ intake, start.run [.arrive (.ok [1, 2, 3]), .pump] = some (intake, []) ∧
      intake.owner = .idle ∧ intake.pump = .parked ∧ intake.pair.buffer.writer = .waiting ∧
      ∃ released, ({ intake with owner := .leaving } : Intake).run [.owner, .owner] =
          some (released, []) ∧ released.owner = .joining ∧
        released.Forwards [1, 2, 3] [3] := by
    refine ⟨_, rfl, rfl, rfl, rfl, _, rfl, rfl, .resume rfl rfl⟩
  obtain ⟨intake, hrun, hidle, hparked, hwaits, released, hmoves, hjoining, hforwards⟩ := hrun
  have hnew : ofConfig? config = some start := rfl
  have hfeasible : Arrivals.Feasible [.ok [4], .error ⟨.interrupted, .bare⟩] := by
    intro chunk hm
    simp only [List.mem_cons, Except.ok.injEq, reduceCtorEq, List.not_mem_nil, or_false] at hm
    rw [hm]
    decide
  obtain ⟨dropped, hleave, hends, hafter⟩ := leaving_ends hnew hrun hidle
  obtain rfl : ({ intake with owner := .leaving } : Intake) = dropped := by
    simpa [Intake.step, hidle] using hleave
  obtain ⟨-, hwrites, -⟩ := hafter _ released _ hmoves hjoining [] released _ rfl
  obtain ⟨-, hrefused, hcloses⟩ := hwrites _ _ hforwards
  exact ⟨start, intake, _, released, rfl, hrun, hidle, hparked, hwaits, hleave,
    hends _ hfeasible, hmoves, hjoining, hrefused, hcloses⟩

end Intake

end Parley.Transport
