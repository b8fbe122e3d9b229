import Parley.Frame.Assembly

/-!
# Frames from a source

A source is known by the events that its reads meet: pieces of data, failures, and ends of
the stream after which more may come. A read takes at most the bytes asked for and leaves the
rest of the piece to the next; an empty piece is passed over. After the last event the stream
has ended for good.

`Source.readFrame` reads until a frame is complete. It asks for no byte beyond the frame, and
keeps nothing for the next call.
-/

namespace Parley.Frame

/-- What a read may meet. -/
inductive SourceEvent
  | data (bytes : List UInt8)
  | failure (failure : Failure)
  | ended

/-- A source of bytes, as the events still to come. -/
abbrev Source := List SourceEvent

namespace Source

/-- The bytes still to come. -/
def bytes (source : Source) : List UInt8 :=
  source.flatMap fun
    | .data bytes => bytes
    | _ => []

/-- Reads up to `n` bytes; none means the end of the stream. -/
def read (n : Nat) : Source → Except Failure (List UInt8) × Source
  | [] => (.ok [], [])
  | .data [] :: rest => read n rest
  | .data (byte :: more) :: rest =>
    (.ok ((byte :: more).take n), .data ((byte :: more).drop n) :: rest)
  | .failure failure :: rest => (.error failure, rest)
  | .ended :: rest => (.ok [], rest)

/-- The events and bytes still to come. -/
def weight : Source → Nat
  | [] => 0
  | .data bytes :: rest => bytes.length + 1 + weight rest
  | _ :: rest => 1 + weight rest

theorem weight_read_lt {n : Nat} (hn : 0 < n) {source rest : Source}
    {arrival : Except Failure (List UInt8)} (h : source.read n = (arrival, rest))
    (ha : arrival ≠ .ok []) : rest.weight < source.weight := by
  fun_induction read n source with
  | case1 => cases h; exact absurd rfl ha
  | case2 tail ih =>
    have := ih h
    simp only [weight, List.length_nil]
    omega
  | case3 byte more tail =>
    cases h
    simp only [weight, List.length_drop, List.length_cons]
    omega
  | case4 failure tail => cases h; simp [weight]
  | case5 tail => cases h; exact absurd rfl ha

/-- Reads the rest of a frame. -/
def complete (max : UInt32) (assembly : Assembly) (source : Source) : Outcome × Source :=
  match _hr : source.read assembly.demand with
  | (arrival, rest) =>
    match _ha : assembly.receive max arrival with
    | .done outcome => (outcome, rest)
    | .more next => complete max next rest
termination_by source.weight
decreasing_by
  refine weight_read_lt assembly.demand_pos _hr fun heq => ?_
  obtain ⟨outcome, ho⟩ := assembly.receive_nil max
  rw [heq, ho] at _ha
  cases _ha

/-- Reads the next frame. -/
def readFrame (max : UInt32) (source : Source) : Outcome × Source :=
  source.complete max .start

/-- Reads `n` times, one call after the other, whatever the calls come to. -/
def readFrames (max : UInt32) (source : Source) : Nat → List Outcome × Source
  | 0 => ([], source)
  | n + 1 =>
    let (outcome, source) := source.readFrame max
    let (outcomes, source) := source.readFrames max n
    (outcome :: outcomes, source)

end Source

end Parley.Frame
