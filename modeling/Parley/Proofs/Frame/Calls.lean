import Parley.Frame.Source
import Parley.Proofs.Frame.Cut

/-!
# Calls of a reader

A source may fail at any read, and its reader may be called again. Each call uses up a piece of
the stream (`readFrame_uses`), and the next call begins where it ends. `Uses` says what a call
comes to, given its piece. A call that fails in the middle of a frame has used up the part of it
that had come, and a refused header is used up without its body; nothing of either is kept, so
the next call takes the byte behind for the first one of a header.

**Theorem (`Source.bodies_until_loss`).** As long as every call has returned a body or has used
up nothing, the bodies are the first frames that the stream is split into, in order and once
each. Behind a call that has lost a part of a frame this is no longer so
(`Source.body_from_inside`).
-/

namespace Parley.Frame

/-- The body that a call returns, if it does. -/
def Outcome.body? : Outcome → Option (List UInt8)
  | body bytes => some bytes
  | ended | error _ => none

/-- The bodies of the frames that a stream is split into at its headers, from the first byte
on and whatever their size. -/
def split (stream : List UInt8) : List (List UInt8) :=
  match _h : parse 0xFFFFFFFF stream with
  | (.body body, rest) => body :: split rest
  | (.ended, _) | (.error _, _) => []
termination_by stream.length
decreasing_by exact length_lt_of_parse _h

theorem split_nil : split [] = [] := by
  rw [split]
  rfl

theorem split_encode {body : List UInt8} (h : body.length < UInt32.size) (rest : List UInt8) :
    split (encode body ++ rest) = body :: split rest := by
  have hmax : (0xFFFFFFFF : UInt32).toNat + 1 = UInt32.size := rfl
  have hle : body.length ≤ (0xFFFFFFFF : UInt32).toNat := by omega
  have hparse := parse_of_cut (.frame hle rest)
  rw [split]
  split
  · next heq => cases hparse.symm.trans heq; rfl
  · next heq => cases hparse.symm.trans heq
  · next heq => cases hparse.symm.trans heq

/-! ## One call -/

/-- What a call comes to that uses up this piece of the stream. -/
inductive Uses (max : UInt32) : (piece : List UInt8) → Outcome → Prop
  | comes {piece : List UInt8} {outcome : Outcome} (h : Cut max piece outcome []) :
    Uses max piece outcome
  /-- The source fails, before the frame or inside it. -/
  | fails {piece : List UInt8} {outcome : Outcome} {failure : Failure}
      (h : Cut max piece outcome []) (hend : outcome.IsEnd) (hk : failure.kind ≠ .interrupted) :
    Uses max piece (.error (.failed failure))

theorem Uses.eq_encode {max : UInt32} {piece body : List UInt8} {outcome : Outcome}
    (h : Uses max piece outcome) (hbody : outcome.body? = some body) :
    piece = encode body ∧ body.length < UInt32.size := by
  cases h with
  | fails => cases hbody
  | comes h =>
    generalize hrest : ([] : List UInt8) = rest at h
    cases h with
    | ended | shortHeader | tooLarge | shortBody => cases hbody
    | frame hle =>
      cases hbody
      exact ⟨by rw [← hrest, List.append_nil], Nat.lt_of_le_of_lt hle max.toNat_lt⟩

namespace Source

variable {max : UInt32} {source rest : Source} {assembly : Assembly}

theorem bytes_of_read {n : Nat} {bytes : List UInt8} (h : source.read n = (.ok bytes, rest)) :
    source.bytes = bytes ++ rest.bytes ∧ bytes.length ≤ n := by
  fun_induction read n source with
  | case1 => cases h; exact ⟨rfl, Nat.zero_le _⟩
  | case2 tail ih => exact ih h
  | case3 byte more tail =>
    cases h
    refine ⟨?_, List.length_take_le _ _⟩
    simp only [Source.bytes, List.flatMap_cons]
    rw [← List.append_assoc, List.take_append_drop]
  | case4 failure tail => cases h
  | case5 tail => cases h; exact ⟨rfl, Nat.zero_le _⟩

theorem bytes_of_failed_read {n : Nat} {failure : Failure}
    (h : source.read n = (.error failure, rest)) : source.bytes = rest.bytes := by
  fun_induction read n source with
  | case1 | case3 | case5 => cases h
  | case2 tail ih => exact ih h
  | case4 failure tail => cases h; rfl

theorem complete_of_done {arrival : Except Failure (List UInt8)} {outcome : Outcome}
    (hread : source.read assembly.demand = (arrival, rest))
    (hdone : assembly.receive max arrival = .done outcome) :
    source.complete max assembly = (outcome, rest) := by
  rw [complete]
  split
  next heq =>
    cases hread.symm.trans heq
    split
    · next heq => cases hdone.symm.trans heq; rfl
    · next heq => cases hdone.symm.trans heq

theorem complete_of_more {arrival : Except Failure (List UInt8)} {next : Assembly}
    (hread : source.read assembly.demand = (arrival, rest))
    (hmore : assembly.receive max arrival = .more next) :
    source.complete max assembly = rest.complete max next := by
  rw [complete]
  split
  next heq =>
    cases hread.symm.trans heq
    split
    · next heq => cases hmore.symm.trans heq
    · next heq => cases hmore.symm.trans heq; rfl

/-- **A call uses up a piece of the stream**; the induction is on the reads that it makes. -/
theorem complete_uses (hw : assembly.Within max) :
    ∃ used, source.bytes = used ++ (source.complete max assembly).2.bytes ∧
      Uses max (assembly.bytes ++ used) (source.complete max assembly).1 := by
  induction assembly, source using complete.induct max with
  | case1 assembly source arrival rest hread outcome hdone =>
    rw [complete_of_done hread hdone]
    cases arrival with
    | error failure =>
      obtain ⟨broken, hend, hcut, -⟩ := Assembly.cut_bytes hw
      simp only [Assembly.receive] at hdone
      split at hdone
      · cases hdone
      · next hk =>
        cases hdone
        refine ⟨[], bytes_of_failed_read hread, ?_⟩
        rw [List.append_nil]
        exact .fails hcut hend hk
    | ok piece =>
      obtain ⟨hbytes, hle⟩ := bytes_of_read hread
      refine ⟨piece, hbytes, ?_⟩
      by_cases hnil : piece = []
      · subst hnil
        obtain ⟨broken, -, hcut, hreceive⟩ := Assembly.cut_bytes hw
        cases hreceive.symm.trans hdone
        rw [List.append_nil]
        exact .comes hcut
      · rcases Assembly.receive_piece hw hnil hle with
          ⟨next, hmore, -, -⟩ | ⟨outcome', hdone', -, hcut⟩
        · cases hmore.symm.trans hdone
        · cases hdone'.symm.trans hdone
          exact .comes hcut
  | case2 assembly source arrival rest hread next hmore ih =>
    rw [complete_of_more hread hmore]
    cases arrival with
    | error failure =>
      rw [bytes_of_failed_read hread]
      simp only [Assembly.receive] at hmore
      split at hmore
      · cases hmore
        exact ih hw
      · cases hmore
    | ok piece =>
      obtain ⟨hbytes, hle⟩ := bytes_of_read hread
      by_cases hnil : piece = []
      · subst hnil
        obtain ⟨outcome, hdone⟩ := assembly.receive_nil max
        cases hmore.symm.trans hdone
      · rcases Assembly.receive_piece hw hnil hle with
          ⟨grown, hgrown, hwithin, hall⟩ | ⟨outcome, hdone, -, -⟩
        · cases hgrown.symm.trans hmore
          obtain ⟨used, hused, huses⟩ := ih hwithin
          refine ⟨piece ++ used, ?_, ?_⟩
          · rw [hbytes, hused, List.append_assoc]
          · rwa [hall, List.append_assoc] at huses
        · cases hdone.symm.trans hmore

theorem readFrame_uses (max : UInt32) (source : Source) :
    ∃ piece, source.bytes = piece ++ (source.readFrame max).2.bytes ∧
      Uses max piece (source.readFrame max).1 :=
  complete_uses Assembly.within_start

theorem split_bytes_of_body {body : List UInt8} (h : (source.readFrame max).1.body? = some body) :
    split source.bytes = body :: split (source.readFrame max).2.bytes := by
  obtain ⟨piece, hbytes, huses⟩ := readFrame_uses max source
  obtain ⟨rfl, hsize⟩ := huses.eq_encode h
  rw [hbytes, split_encode hsize]

/-- A call loses a part of the stream: it returns no body, yet the stream is not where it was. -/
def Loses (max : UInt32) (source : Source) : Prop :=
  (source.readFrame max).1.body? = none ∧ (source.readFrame max).2.bytes ≠ source.bytes

instance (max : UInt32) (source : Source) : Decidable (source.Loses max) :=
  inferInstanceAs (Decidable (_ ∧ _))

/-! ## All calls -/

/-- **Bodies are whole frames until a part of one is lost.** As long as every call has returned a
body or left the stream where it was, the bodies of these calls and the next one are the first
frames that the stream is split into, each once and in order. -/
theorem bodies_until_loss {k : Nat}
    (h : ∀ i < k, ¬(source.readFrames max i).2.Loses max) :
    (source.readFrames max (k + 1)).1.filterMap Outcome.body? <+: split source.bytes := by
  induction k generalizing source with
  | zero =>
    change [(source.readFrame max).1].filterMap Outcome.body? <+: _
    cases hbody : (source.readFrame max).1.body? with
    | none =>
      rw [List.filterMap_cons_none hbody]
      exact List.nil_prefix
    | some body =>
      rw [List.filterMap_cons_some hbody, split_bytes_of_body hbody]
      exact List.prefix_append [body] _
  | succ k ih =>
    -- The later calls are those of what the first one leaves.
    have hlater := ih fun i hi => h (i + 1) (Nat.succ_lt_succ hi)
    have hfirst := h 0 (Nat.zero_lt_succ k)
    change ((source.readFrame max).1 :: _).filterMap Outcome.body? <+: _
    cases hbody : (source.readFrame max).1.body? with
    | none =>
      have hstill : (source.readFrame max).2.bytes = source.bytes :=
        Decidable.not_not.mp fun hne => hfirst ⟨hbody, hne⟩
      rw [List.filterMap_cons_none hbody, ← hstill]
      exact hlater
    | some body =>
      rw [List.filterMap_cons_some hbody, split_bytes_of_body hbody, List.cons_prefix_cons]
      exact ⟨rfl, hlater⟩

/-- A source that fails between two frames loses nothing: called again, the reader goes on. -/
theorem bodies_until_loss_between :
    let source : Source := [.data (encode [7]), .failure .readTimedOut, .data (encode [8])]
    (∀ i < 2, ¬(source.readFrames 64 i).2.Loses 64) ∧
      (source.readFrames 64 3).1.filterMap Outcome.body? = [[7], [8]] ∧
      [[7], [8]] <+: split source.bytes := by
  intro source
  have hkeeps : ∀ i < 2, ¬(source.readFrames 64 i).2.Loses 64 := by
    intro i hi
    have hcases : i = 0 ∨ i = 1 := by omega
    rcases hcases with rfl | rfl
    · have hbody : (source.readFrame 64).1.body? = some [7] := by cbv
      exact fun hloses => by cases hbody.symm.trans hloses.1
    · let rest : Source := [.data [], .failure .readTimedOut, .data (encode [8])]
      have hfirst : source.readFrames 64 1 = ([.body [7]], rest) := by cbv
      have hsecond : rest.readFrame 64 =
          (.error (.failed .readTimedOut), [.data (encode [8])]) := by cbv
      rw [hfirst]
      intro hloses
      apply hloses.2
      rw [hsecond]
      rfl
  have hbodies : (source.readFrames 64 3).1.filterMap Outcome.body? = [[7], [8]] := by
    cbv
  exact ⟨hkeeps, hbodies, hbodies ▸ bodies_until_loss hkeeps⟩

/-- **A header from inside a frame.** The reads fail behind the header of a frame of five bytes;
called again, the reader takes the first four of these for a header. Of a refused frame it
takes the body for the next frame. Neither body is among those that the stream is split into. -/
theorem body_from_inside :
    let failing : Source := [.data [0, 0, 0, 5], .failure .readTimedOut, .data [0, 0, 0, 1, 9]]
    let refused : Source := [.data [0, 0, 0, 5, 0, 0, 0, 1, 9]]
    (failing.readFrames 64 2).1 = [.error (.failed .readTimedOut), .body [9]] ∧
      ¬((failing.readFrames 64 2).1.filterMap Outcome.body?).Sublist (split failing.bytes) ∧
      (refused.readFrames 4 2).1 = [.error (.tooLarge 5 4), .body [9]] ∧
      ¬((refused.readFrames 4 2).1.filterMap Outcome.body?).Sublist (split refused.bytes) := by
  intro failing refused
  have hfailing : (failing.readFrames 64 2).1 = [.error (.failed .readTimedOut), .body [9]] := by
    cbv
  have hrefused : (refused.readFrames 4 2).1 = [.error (.tooLarge 5 4), .body [9]] := by cbv
  -- Both streams are one frame of five bytes, which end in what would be a frame of one.
  have hsize : ([0, 0, 0, 1, 9] : List UInt8).length < UInt32.size := by decide
  have hsplit : split [0, 0, 0, 5, 0, 0, 0, 1, 9] = [[0, 0, 0, 1, 9]] :=
    (split_encode hsize []).trans (congrArg _ split_nil)
  have hinside : ¬[[9]].Sublist (split [0, 0, 0, 5, 0, 0, 0, 1, 9]) := by
    rw [hsplit]
    decide
  exact ⟨hfailing, hfailing ▸ hinside, hrefused, hrefused ▸ hinside⟩

end Source

end Parley.Frame
