import Parley.Proofs.Frame.Calls

/-!
# Frames do not depend on the pieces

A source that meets nothing worse than interruptions brings its bytes in pieces of any size, cut
short by what its reader asks for. A call of the reader still comes to what the bytes alone say: to
what the whole stream begins with, and it takes no byte behind that.

**What is left.** A call that the end of the source cuts short has taken everything, because such a
source ends only behind its last byte. Any other call has taken bytes that decide its outcome,
whatever follows (`Cut.append`).

**Theorem (`Source.reassembles`).** A call comes to what parsing the stream comes to and leaves the
same rest. So calls that are made one after the other return bodies and then the end exactly if the
stream is the frames of these bodies.
-/

namespace Parley.Frame

/-- Data, or an interruption. -/
def SourceEvent.Steady : SourceEvent → Prop
  | .data _ => True
  | .failure cause => cause.kind = .interrupted
  | .ended => False

instance (event : SourceEvent) : Decidable event.Steady :=
  match event with
  | .data _ => inferInstanceAs (Decidable True)
  | .failure cause => inferInstanceAs (Decidable (cause.kind = .interrupted))
  | .ended => inferInstanceAs (Decidable False)

namespace Source

variable {max : UInt32} {source rest : Source} {assembly : Assembly}

/-- The reads of the source bring its bytes in some pieces, interrupted any number of times, and
then the end for ever. -/
def Steady (source : Source) : Prop := ∀ event ∈ source, event.Steady

instance (source : Source) : Decidable source.Steady :=
  inferInstanceAs (Decidable (∀ event ∈ source, event.Steady))

/-! ## One call -/

theorem steady_of_read {n : Nat} {bytes : List UInt8} (hs : source.Steady) (hn : 0 < n)
    (h : source.read n = (.ok bytes, rest)) :
    rest.Steady ∧ (bytes = [] → rest.bytes = []) := by
  fun_induction read n source with
  | case1 => cases h; exact ⟨hs, fun _ => rfl⟩
  | case2 tail ih => exact ih (List.forall_mem_cons.mp hs).2 h
  | case3 byte more tail =>
    cases h
    obtain ⟨hdata, htail⟩ := List.forall_mem_cons.mp hs
    refine ⟨List.forall_mem_cons.mpr ⟨hdata, htail⟩, fun hnil => ?_⟩
    rcases List.take_eq_nil_iff.mp hnil with hzero | hempty
    · exact absurd hzero (Nat.ne_of_gt hn)
    · cases hempty
  | case4 failure tail => cases h
  | case5 tail => exact ((List.forall_mem_cons.mp hs).1 : False).elim

theorem steady_of_failed_read {n : Nat} {failure : Failure} (hs : source.Steady)
    (h : source.read n = (.error failure, rest)) :
    rest.Steady ∧ failure.kind = .interrupted := by
  fun_induction read n source with
  | case1 | case3 | case5 => cases h
  | case2 tail ih => exact ih (List.forall_mem_cons.mp hs).2 h
  | case4 failure tail =>
    cases h
    obtain ⟨hk, htail⟩ := List.forall_mem_cons.mp hs
    exact ⟨htail, hk⟩

/-- **A call comes to what the stream begins with**, from the bytes of the frame that have come
on, and leaves the rest; the induction is on the reads that it makes. -/
theorem complete_cut (hs : source.Steady) (hw : assembly.Within max) :
    (source.complete max assembly).2.Steady ∧
      Cut max (assembly.bytes ++ source.bytes) (source.complete max assembly).1
        (source.complete max assembly).2.bytes := by
  induction assembly, source using complete.induct max with
  | case1 assembly source arrival rest hread outcome hdone =>
    rw [complete_of_done hread hdone]
    cases arrival with
    | error failure => simp [Assembly.receive, (steady_of_failed_read hs hread).2] at hdone
    | ok piece =>
      obtain ⟨hrest, hend⟩ := steady_of_read hs assembly.demand_pos hread
      obtain ⟨hbytes, hle⟩ := bytes_of_read hread
      refine ⟨hrest, ?_⟩
      rw [hbytes]
      by_cases hnil : piece = []
      · obtain ⟨broken, -, hcut, hreceive⟩ := Assembly.cut_bytes hw
        rw [hnil] at hdone
        cases hreceive.symm.trans hdone
        rwa [hend hnil, hnil, List.append_nil, List.append_nil]
      · rcases Assembly.receive_piece hw hnil hle with
          ⟨next, hmore, -, -⟩ | ⟨decided, hdecided, hgoes, hcut⟩
        · cases hmore.symm.trans hdone
        · cases hdecided.symm.trans hdone
          have hall := hcut.append hgoes rest.bytes
          rwa [List.append_assoc, List.nil_append] at hall
  | case2 assembly source arrival rest hread next hmore ih =>
    rw [complete_of_more hread hmore]
    cases arrival with
    | error failure =>
      obtain ⟨hrest, hk⟩ := steady_of_failed_read hs hread
      simp only [Assembly.receive, hk, if_true] at hmore
      cases hmore
      rw [bytes_of_failed_read hread]
      exact ih hrest hw
    | ok piece =>
      obtain ⟨hrest, -⟩ := steady_of_read hs assembly.demand_pos hread
      obtain ⟨hbytes, hle⟩ := bytes_of_read hread
      by_cases hnil : piece = []
      · subst hnil
        obtain ⟨outcome, hdone⟩ := assembly.receive_nil max
        cases hmore.symm.trans hdone
      · rcases Assembly.receive_piece hw hnil hle with
          ⟨grown, hgrown, hwithin, hall⟩ | ⟨outcome, hdone, -, -⟩
        · cases hgrown.symm.trans hmore
          have hcut := ih hrest hwithin
          rwa [hall, List.append_assoc, ← hbytes] at hcut
        · cases hdone.symm.trans hmore

theorem readFrame_cut (hs : source.Steady) (max : UInt32) :
    (source.readFrame max).2.Steady ∧
      Cut max source.bytes (source.readFrame max).1 (source.readFrame max).2.bytes :=
  complete_cut hs Assembly.within_start

end Source

/-! ## All calls -/

namespace Source

variable {source : Source}

/-- Calls that return these bodies and then the end have found the frames of these bodies, and
nothing else; the induction is on the calls. -/
theorem readFrames_eq_bodies (hs : source.Steady) (max : UInt32) (bodies : List (List UInt8)) :
    (source.readFrames max (bodies.length + 1)).1 = bodies.map .body ++ [.ended] ↔
      (∀ body ∈ bodies, body.length ≤ max.toNat) ∧ source.bytes = bodies.flatMap encode := by
  obtain ⟨hrest, hcut⟩ := readFrame_cut hs max
  induction bodies generalizing source with
  | nil =>
    have hone : (source.readFrames max 1).1 = [(source.readFrame max).1] := rfl
    rw [List.length_nil, hone]
    constructor
    · intro h
      obtain ⟨hend, -⟩ := List.cons.inj h
      rw [hend] at hcut
      exact ⟨nofun, hcut.eq_nil_of_ended⟩
    · intro h
      have hempty : source.bytes = [] := h.2
      rw [hempty] at hcut
      rw [(hcut.unique .ended).1]
      rfl
  | cons body bodies ih =>
    have hcons : (source.readFrames max ((body :: bodies).length + 1)).1 =
        (source.readFrame max).1 ::
          ((source.readFrame max).2.readFrames max (bodies.length + 1)).1 := rfl
    have ih := ih hrest (readFrame_cut hrest max).1 (readFrame_cut hrest max).2
    rw [hcons, List.map_cons, List.cons_append, List.forall_mem_cons, List.flatMap_cons]
    constructor
    · intro h
      obtain ⟨hbody, hbodies⟩ := List.cons.inj h
      obtain ⟨hle, hbytes⟩ := ih.mp hbodies
      rw [hbody, hbytes] at hcut
      obtain ⟨hfits, hall⟩ := hcut.eq_encode_of_body
      exact ⟨⟨hfits, hle⟩, hall⟩
    · intro h
      obtain ⟨⟨hle, hles⟩, hbytes⟩ := h
      rw [hbytes] at hcut
      obtain ⟨hbody, hleft⟩ := hcut.unique (.frame hle _)
      rw [hbody, ih.mpr ⟨hles, hleft⟩]

/-- **Reassembly is parsing.** Whatever the pieces in which a source brings its bytes and however
often it is interrupted, a call comes to what the stream begins with: the end just if there are no
bytes, a header or a body that is cut short, a size over the limit, or a whole body. It leaves
exactly the bytes behind the frame or behind the header that it refuses, and the source brings these
in the same manner. Calls made one after the other return bodies and then the end just if the stream
is the frames of these bodies, all within the limit. -/
theorem reassembles (hs : source.Steady) (max : UInt32) :
    let outcome := (source.readFrame max).1
    let left := (source.readFrame max).2
    parse max source.bytes = (outcome, left.bytes) ∧
      Cut max source.bytes outcome left.bytes ∧ left.Steady ∧
      (outcome = .ended ↔ source.bytes = []) ∧
      ∀ bodies : List (List UInt8),
        (source.readFrames max (bodies.length + 1)).1 = bodies.map .body ++ [.ended] ↔
          (∀ body ∈ bodies, body.length ≤ max.toNat) ∧ source.bytes = bodies.flatMap encode := by
  obtain ⟨hleft, hcut⟩ := readFrame_cut hs max
  refine ⟨parse_of_cut hcut, hcut, hleft, ?_, readFrames_eq_bodies hs max⟩
  have hend := readFrames_eq_bodies hs max []
  simpa [readFrames] using hend

/-- A header in two pieces with an interruption between them, and an empty body behind another. -/
theorem reassembles_interrupted :
    let source : Source := [.data [0, 0], .failure ⟨.interrupted, .bare⟩, .data [0, 1, 7, 0, 0],
      .data [], .data [0, 0]]
    source.Steady ∧ source.bytes = [[7], []].flatMap encode ∧
      (source.readFrames 1 3).1 = [.body [7], .body [], .ended] := by
  intro source
  have hs : source.Steady := by decide
  have hbytes : source.bytes = [[7], []].flatMap encode := by decide
  refine ⟨hs, hbytes, ((reassembles hs 1).2.2.2.2 [[7], []]).mpr ⟨?_, hbytes⟩⟩
  decide

end Source

end Parley.Frame
