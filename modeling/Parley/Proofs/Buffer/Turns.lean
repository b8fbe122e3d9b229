import Parley.Buffer.Pair
import Parley.Proofs.Buffer.Ring

/-!
# What a turn can do

Everything that is proved of runs at a buffer rests on a list of the turns there are. It is
given twice, as an inductive relation each time: for one party at the buffer (`OfferTurn`,
`TakeTurn`), and for the two handles with the operations they are in the middle of
(`Pair.Turn`). A constructor says when its turn is taken and all that it changes.

**Theorem (`Pair.turn_of_step`).** Every step of a pair is one of these turns.

**Runs.** `Reached` holds of the states that some run leads to, with all operations that have
come to their end on the way. A property of both holds always if it holds at the start and
every turn keeps it (`Reached.rec_turn`).
-/

namespace Parley.Buffer

/-! ## One party -/

/-- The turns of a writer with `bytes` to write. -/
inductive OfferTurn (buffer : Buffer) (bytes : List UInt8) : Buffer → Offered → Prop
  | nothing (h : bytes = []) :
    OfferTurn buffer bytes { buffer with writer := .running } .accepted
  | closed (hne : bytes ≠ []) (hc : buffer.closed = true) :
    OfferTurn buffer bytes { buffer with writer := .running } (.refused .closed bytes)
  | readerGone (hne : bytes ≠ []) (ho : buffer.closed = false) (hg : buffer.readerGone = true) :
    OfferTurn buffer bytes { buffer with writer := .running } (.refused .readerGone bytes)
  | full (hne : bytes ≠ []) (ho : buffer.closed = false) (ha : buffer.readerGone = false)
      (hr : buffer.ring.room = 0) :
    OfferTurn buffer bytes { buffer with writer := .waiting } (.waiting bytes)
  | whole (hne : bytes ≠ []) (ho : buffer.closed = false) (ha : buffer.readerGone = false)
      (hr : bytes.length ≤ buffer.ring.room) :
    OfferTurn buffer bytes { buffer with
      ring := (buffer.ring.push bytes).1
      writer := .running
      reader := buffer.reader.notify } .accepted
  | part (ho : buffer.closed = false) (ha : buffer.readerGone = false)
      (hpos : 0 < buffer.ring.room) (hr : buffer.ring.room < bytes.length) :
    OfferTurn buffer bytes { buffer with
      ring := (buffer.ring.push bytes).1
      writer := .waiting
      reader := buffer.reader.notify } (.waiting (bytes.drop buffer.ring.room))

theorem offer_turn (buffer : Buffer) (bytes : List UInt8) :
    OfferTurn buffer bytes (buffer.offer bytes).1 (buffer.offer bytes).2 := by
  simp only [offer]
  by_cases hne : bytes = []
  · rw [if_pos (by simp [hne])]
    exact .nothing hne
  rw [if_neg (by simpa using hne)]
  by_cases hc : buffer.closed = true
  · rw [if_pos hc]
    exact .closed hne hc
  rw [if_neg hc]
  rw [Bool.not_eq_true] at hc
  by_cases hg : buffer.readerGone = true
  · rw [if_pos hg]
    exact .readerGone hne hc hg
  rw [if_neg hg]
  rw [Bool.not_eq_true] at hg
  by_cases hr : buffer.ring.room = 0
  · rw [if_pos hr]
    exact .full hne hc hg hr
  rw [if_neg hr, Ring.taken_push]
  by_cases hl : bytes.length ≤ buffer.ring.room
  · rw [Nat.min_eq_right hl, List.drop_length, List.isEmpty_nil, if_pos rfl]
    exact .whole hne hc hg hl
  · have hlt : buffer.ring.room < bytes.length := Nat.lt_of_not_le hl
    rw [Nat.min_eq_left (Nat.le_of_lt hlt), if_neg (by simpa using hlt)]
    exact .part hc hg (Nat.pos_of_ne_zero hr) hlt

/-- The turns of a reader with room for `n` bytes. -/
inductive TakeTurn (buffer : Buffer) (n : Nat) : Buffer → Taken → Prop
  | nothing (h : n = 0) : TakeTurn buffer n { buffer with reader := .running } (.bytes [])
  | ended (hn : n ≠ 0) (he : buffer.ring.size = 0) (hc : buffer.closed = true) :
    TakeTurn buffer n { buffer with reader := .running } .ended
  | empty (hn : n ≠ 0) (he : buffer.ring.size = 0) (ho : buffer.closed = false) :
    TakeTurn buffer n { buffer with reader := .waiting } .waiting
  | some (hn : n ≠ 0) (hs : buffer.ring.size ≠ 0) :
    TakeTurn buffer n { buffer with
      ring := (buffer.ring.pop n).1
      reader := .running
      writer := buffer.writer.notify } (.bytes (buffer.contents.take n))

theorem take_turn (buffer : Buffer) (n : Nat) :
    TakeTurn buffer n (buffer.take n).1 (buffer.take n).2 := by
  simp only [take]
  by_cases hn : n = 0
  · rw [if_pos hn]
    exact .nothing hn
  rw [if_neg hn]
  by_cases hs : buffer.ring.size = 0
  · rw [if_pos hs]
    by_cases hc : buffer.closed = true
    · rw [if_pos hc]
      exact .ended hn hs hc
    · rw [if_neg hc]
      exact .empty hn hs (by simpa using hc)
  · rw [if_neg hs, Ring.bytes_pop]
    exact .some hn hs

/-! ## Both handles -/

namespace Pair

/-- The writer can take a turn with `left` of `data` still to write. -/
inductive Writes (pair : Pair) : (data left : List UInt8) → Prop
  | start (data : List UInt8) (h : pair.writing = .idle) : Writes pair data data
  | resume {data left : List UInt8} (h : pair.writing = .waiting data left) :
    Writes pair data left

/-- The reader can take a turn with room for `n` bytes. -/
inductive Reads (pair : Pair) (n : Nat) : Prop
  | start (h : pair.reading = .idle)
  | resume (h : pair.reading = .waiting n)

/-- The turns of the two parties, with the operations that come to their end. -/
inductive Turn (pair : Pair) : Pair → List Event → Prop
  | wrote {data left : List UInt8} {buffer : Buffer} (hw : pair.Writes data left)
      (ht : OfferTurn pair.buffer left buffer .accepted) :
    Turn pair { pair with buffer, writing := .idle } [.wrote data [] (.ok ())]
  | refused {data left rest : List UInt8} {buffer : Buffer} {error : BufferError}
      (hw : pair.Writes data left) (ht : OfferTurn pair.buffer left buffer (.refused error rest)) :
    Turn pair { pair with buffer, writing := .idle } [.wrote data rest (.error error)]
  | writeWaits {data left rest : List UInt8} {buffer : Buffer} (hw : pair.Writes data left)
      (ht : OfferTurn pair.buffer left buffer (.waiting rest)) :
    Turn pair { pair with buffer, writing := .waiting data rest } []
  | close (hw : pair.writing = .idle) :
    Turn pair { pair with buffer := pair.buffer.close } []
  | dropWriter (hw : pair.writing = .idle) :
    Turn pair { pair with buffer := pair.buffer.close, writing := .gone } []
  | read {n : Nat} {bytes : List UInt8} {buffer : Buffer} (hr : pair.Reads n)
      (ht : TakeTurn pair.buffer n buffer (.bytes bytes)) :
    Turn pair { pair with buffer, reading := .idle } [.read n (some bytes)]
  | readEnded {n : Nat} {buffer : Buffer} (hr : pair.Reads n)
      (ht : TakeTurn pair.buffer n buffer .ended) :
    Turn pair { pair with buffer, reading := .idle } [.read n none]
  | readWaits {n : Nat} {buffer : Buffer} (hr : pair.Reads n)
      (ht : TakeTurn pair.buffer n buffer .waiting) :
    Turn pair { pair with buffer, reading := .waiting n } []
  | dropReader (hr : pair.reading = .idle) :
    Turn pair { pair with buffer := pair.buffer.dropReader, reading := .gone } []

theorem turn_writeTurn {pair : Pair} {data left : List UInt8} (hw : pair.Writes data left) :
    pair.Turn (pair.writeTurn data left).1 (pair.writeTurn data left).2 := by
  have ht := offer_turn pair.buffer left
  simp only [writeTurn]
  split
  · next heq => rw [heq] at ht; exact .wrote hw ht
  · next heq => rw [heq] at ht; exact .refused hw ht
  · next heq => rw [heq] at ht; exact .writeWaits hw ht

theorem turn_readTurn {pair : Pair} {n : Nat} (hr : pair.Reads n) :
    pair.Turn (pair.readTurn n).1 (pair.readTurn n).2 := by
  have ht := take_turn pair.buffer n
  simp only [readTurn]
  split
  · next heq => rw [heq] at ht; exact .read hr ht
  · next heq => rw [heq] at ht; exact .readEnded hr ht
  · next heq => rw [heq] at ht; exact .readWaits hr ht

/-- **Steps are turns.** -/
theorem turn_of_step {pair pair' : Pair} {action : Action} {events : List Event}
    (h : pair.step action = some (pair', events)) : pair.Turn pair' events := by
  cases action with
  | write data =>
    simp only [step] at h
    split at h
    · next hw =>
      have ht := turn_writeTurn (.start data hw)
      rwa [Option.some.inj h] at ht
    · cases h
  | resumeWrite =>
    simp only [step] at h
    split at h
    · next hw =>
      have ht := turn_writeTurn (.resume hw)
      rwa [Option.some.inj h] at ht
    · cases h
  | close =>
    simp only [step] at h
    split at h
    · next hw => cases h; exact .close hw
    · cases h
  | dropWriter =>
    simp only [step] at h
    split at h
    · next hw => cases h; exact .dropWriter hw
    · cases h
  | read n =>
    simp only [step] at h
    split at h
    · next hr =>
      have ht := turn_readTurn (n := n) (.start hr)
      rwa [Option.some.inj h] at ht
    · cases h
  | resumeRead =>
    simp only [step] at h
    split at h
    · next hr =>
      have ht := turn_readTurn (.resume hr)
      rwa [Option.some.inj h] at ht
    · cases h
  | dropReader =>
    simp only [step] at h
    split at h
    · next hr => cases h; exact .dropReader hr
    · cases h

end Pair

/-! ## Runs -/

/-- A run on a new buffer of this capacity leads to `pair`, and on the way the operations of
`events` have come to their end. -/
def Reached (capacity : Nat) (pair : Pair) (events : List Event) : Prop :=
  ∃ start actions, Pair.ofCapacity? capacity = some start ∧
    start.run actions = some (pair, events)

theorem Pair.run_turn {P : Pair → List Event → Prop}
    (hturn : ∀ {pair past pair' events}, P pair past → pair.Turn pair' events →
      P pair' (past ++ events)) :
    ∀ {actions : List Action} {pair pair' : Pair} {past events : List Event}, P pair past →
      pair.run actions = some (pair', events) → P pair' (past ++ events) := by
  intro actions
  induction actions with
  | nil =>
    intro pair pair' past events hp h
    cases h
    rwa [List.append_nil]
  | cons action rest ih =>
    intro pair pair' past events hp h
    simp only [run, Option.bind_eq_bind, Option.bind_eq_some_iff, Option.pure_def,
      Option.some.injEq] at h
    obtain ⟨⟨mid, first⟩, hstep, ⟨last, more⟩, hrest, heq⟩ := h
    cases heq
    rw [← List.append_assoc]
    exact ih (hturn hp (turn_of_step hstep)) hrest

theorem Reached.rec_turn {capacity : Nat} {P : Pair → List Event → Prop}
    (hstart : ∀ h : 0 < capacity, P { buffer := { ring := .empty capacity h } } [])
    (hturn : ∀ {pair past pair' events}, P pair past → pair.Turn pair' events →
      P pair' (past ++ events))
    {pair : Pair} {events : List Event} (h : Reached capacity pair events) : P pair events := by
  obtain ⟨start, actions, hnew, hrun⟩ := h
  simp only [Pair.ofCapacity?, ofCapacity?] at hnew
  split at hnew
  · next hpos =>
    cases hnew
    exact Pair.run_turn hturn (hstart hpos) hrun
  · cases hnew

end Parley.Buffer
