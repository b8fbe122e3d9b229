import Parley.Frame.Sink

/-!
# What a sink is given of a frame

A frame is offered whole, and what a write does not take is offered again. So what the calls of a
sink have brought, taken together, is at every moment the front of the frame, however the sink cuts
it, interrupts or fails. A sink that interrupts for ever keeps its writer for ever; each moment of
that is one of a sink that interrupts often enough.

**Calls.** A write that is interrupted or takes a byte leaves the writing where it is or further on
(`Offered.cons`); any other write ends it (`Offered.ruined`). The flush is behind all writes.

**Theorem (`Sink.all_or_nothing`).** A body over the limit makes no call at all. Any other body is
brought in order up to the first write that ends the writing, which is reported; if there is none
the sink is flushed once, and what the flush comes to is reported.
-/

namespace Parley.Frame

/-- The failure by which a write ends the writing. -/
def SinkCall.ruin? : SinkCall → Option Failure
  | write _ (.ok n) => if n = 0 then some .nothingWritten else none
  | write _ (.error failure) => if failure.kind = .interrupted then none else some failure
  | flush _ => none

/-- The bytes that calls brought, one call after the other. -/
def brought (calls : List SinkCall) : List UInt8 := calls.flatMap SinkCall.taken

@[simp] theorem brought_nil : brought [] = [] := rfl

@[simp] theorem brought_cons (call : SinkCall) (calls : List SinkCall) :
    brought (call :: calls) = call.taken ++ brought calls := rfl

@[simp] theorem brought_append (calls later : List SinkCall) :
    brought (calls ++ later) = brought calls ++ brought later :=
  List.flatMap_append

namespace Sink

/-- Calls are made of the sink one after the other, and it answers each of them; then it is
`after`. -/
inductive Receives : Sink → List SinkCall → Sink → Prop
  | nothing (sink : Sink) : Receives sink [] sink
  | write {sink after : Sink} {calls : List SinkCall} (bytes : List UInt8)
      (h : Receives (sink.write bytes).2 calls after) :
      Receives sink (.write bytes (sink.write bytes).1 :: calls) after
  | flush {sink after : Sink} {calls : List SinkCall} (h : Receives sink.flush.2 calls after) :
      Receives sink (.flush sink.flush.1 :: calls) after

namespace Receives

variable {sink mid after : Sink} {calls later : List SinkCall}

theorem append (h : Receives sink calls mid) (hl : Receives mid later after) :
    Receives sink (calls ++ later) after := by
  induction h with
  | nothing => exact hl
  | write bytes _ ih => exact .write bytes (ih hl)
  | flush _ ih => exact .flush (ih hl)

theorem calls_eq (h : Receives sink calls after) :
    after.calls.toList = sink.calls.toList ++ calls := by
  induction h with
  | nothing => rw [List.append_nil]
  | write bytes _ ih => rw [ih, Sink.write, Array.toList_push, List.append_assoc]; rfl
  | flush _ ih => rw [ih, Sink.flush, Array.toList_push, List.append_assoc]; rfl

end Receives

end Sink

/-! ## Bytes offered until all are taken -/

/-- The calls by which bytes are offered until all are taken or a write ends it, and what comes of
them. -/
structure Offered (bytes : List UInt8) (calls : List SinkCall) (result : Except Failure Unit) :
    Prop where
  no_flush : ∀ call ∈ calls, call.isFlush = false
  in_order : ∀ moment, moment <+: calls → brought moment <+: bytes
  result_eq : result = match calls.findSome? SinkCall.ruin? with
    | some failure => .error failure
    | none => .ok ()
  all_iff : brought calls = bytes ↔ result = .ok ()

namespace Offered

variable {bytes rest : List UInt8} {call : SinkCall} {calls : List SinkCall}
  {result : Except Failure Unit}

theorem nothing : Offered [] [] (.ok ()) where
  no_flush := nofun
  in_order moment hm := by rw [List.prefix_nil.mp hm]; exact List.nil_prefix
  result_eq := rfl
  all_iff := iff_of_true rfl rfl

theorem ruined {failure : Failure} (hf : call.isFlush = false) (ht : call.taken = [])
    (hr : call.ruin? = some failure) (hne : bytes ≠ []) :
    Offered bytes [call] (.error failure) where
  no_flush := by simpa using hf
  in_order moment hm := by
    rcases List.prefix_cons_iff.mp hm with rfl | ⟨more, rfl, hmore⟩
    · exact List.nil_prefix
    · rw [List.prefix_nil.mp hmore, brought_cons, ht]
      exact List.nil_prefix
  result_eq := by rw [List.findSome?_cons, hr]
  all_iff := iff_of_false (by simpa [ht] using hne.symm) nofun

theorem cons (hf : call.isFlush = false) (hr : call.ruin? = none) (hb : bytes = call.taken ++ rest)
    (h : Offered rest calls result) : Offered bytes (call :: calls) result where
  no_flush := List.forall_mem_cons.mpr ⟨hf, h.no_flush⟩
  in_order moment hm := by
    rcases List.prefix_cons_iff.mp hm with rfl | ⟨more, rfl, hmore⟩
    · exact List.nil_prefix
    · rw [brought_cons, hb]
      exact (List.prefix_append_right_inj _).mpr (h.in_order more hmore)
  result_eq := by rw [List.findSome?_cons, hr]; exact h.result_eq
  all_iff := by rw [brought_cons, hb, List.append_cancel_left_eq]; exact h.all_iff

end Offered

theorem Offered.not_mem_flush {bytes : List UInt8} {calls : List SinkCall}
    {result : Except Failure Unit} (h : Offered bytes calls result)
    (answer : Except Failure Unit) : .flush answer ∉ calls :=
  fun hm => Bool.noConfusion (h.no_flush _ hm)

theorem Offered.countP_isFlush {bytes : List UInt8} {calls : List SinkCall}
    {result : Except Failure Unit} (h : Offered bytes calls result) :
    calls.countP SinkCall.isFlush = 0 :=
  List.countP_eq_zero.mpr fun call hm => by simp [h.no_flush call hm]

namespace Sink

/-- **All that is offered**; the induction is on the writes that are made. -/
theorem offered_writeAll (sink : Sink) (bytes : List UInt8) :
    ∃ calls, sink.Receives calls (sink.writeAll bytes).2 ∧
      Offered bytes calls (sink.writeAll bytes).1 := by
  fun_induction writeAll sink bytes with
  | case1 sink => exact ⟨[], .nothing sink, .nothing⟩
  | case2 sink bytes hne ha =>
    refine ⟨[.write bytes (.ok 0)], ?_, .ruined rfl rfl rfl hne⟩
    exact ha ▸ .write bytes (.nothing _)
  | case3 sink bytes hne n ha hn ih =>
    obtain ⟨calls, hcalls, hoffered⟩ := ih
    refine ⟨.write bytes (.ok n) :: calls, ha ▸ .write bytes hcalls, hoffered.cons rfl ?_ ?_⟩
    · simp [SinkCall.ruin?, hn]
    · exact (List.take_append_drop n bytes).symm
  | case4 sink bytes hne failure ha hk ih =>
    obtain ⟨calls, hcalls, hoffered⟩ := ih
    refine ⟨.write bytes (.error failure) :: calls, ha ▸ .write bytes hcalls,
      hoffered.cons rfl ?_ rfl⟩
    simp [SinkCall.ruin?, hk]
  | case5 sink bytes hne failure ha hk =>
    refine ⟨[.write bytes (.error failure)], ha ▸ .write bytes (.nothing _),
      .ruined rfl rfl ?_ hne⟩
    simp [SinkCall.ruin?, hk]

end Sink

/-! ## A frame -/

/-- The calls by which a frame is written, and what comes of them. -/
structure Delivered (frame : List UInt8) (calls : List SinkCall)
    (result : Except FrameError Unit) : Prop where
  /-- No byte is repeated, skipped or brought before its turn. -/
  in_order : ∀ moment, moment <+: calls → brought moment <+: frame
  /-- A flush comes when the frame is there, and nothing comes behind it. -/
  flush_last : ∀ before answer later, calls = before ++ .flush answer :: later →
    brought before = frame ∧ later = []
  flush_once : calls.countP SinkCall.isFlush = if brought calls = frame then 1 else 0
  ok_iff : result = .ok () ↔ brought calls = frame ∧ .flush (.ok ()) ∈ calls
  write_failed : brought calls ≠ frame → ∃ failure,
    calls.findSome? SinkCall.ruin? = some failure ∧ result = .error (.failed failure)
  flush_failed : ∀ failure, .flush (.error failure) ∈ calls → result = .error (.failed failure)

namespace Delivered

variable {frame : List UInt8} {calls : List SinkCall}

theorem of_refused {failure : Failure} (h : Offered frame calls (.error failure)) :
    Delivered frame calls (.error (.failed failure)) := by
  have hpart : brought calls ≠ frame := fun hall => nomatch h.all_iff.mp hall
  refine ⟨h.in_order, ?_, ?_, ?_, fun _ => ⟨failure, ?_, rfl⟩, ?_⟩
  · intro before answer later hcalls
    exact absurd (hcalls ▸ List.mem_append_right before List.mem_cons_self)
      (h.not_mem_flush answer)
  · rw [if_neg hpart, h.countP_isFlush]
  · exact iff_of_false nofun fun hall => hpart hall.1
  · have hresult := h.result_eq
    split at hresult
    · next found hfound => cases hresult; exact hfound
    · cases hresult
  · exact fun other hm => absurd hm (h.not_mem_flush _)

theorem of_flushed (h : Offered frame calls (.ok ())) (answer : Except Failure Unit) :
    Delivered frame (calls ++ [.flush answer]) (answer.mapError .failed) := by
  have hall : brought (calls ++ [.flush answer]) = frame := by
    rw [brought_append, h.all_iff.mpr rfl]
    exact List.append_nil frame
  have hmem : ∀ other, .flush other ∈ calls ++ [.flush answer] ↔ other = answer := by
    intro other
    simp [h.not_mem_flush other]
  refine ⟨?_, ?_, ?_, ?_, fun hpart => absurd hall hpart, ?_⟩
  · intro moment hm
    rcases List.prefix_concat_iff.mp hm with rfl | hm
    · exact hall ▸ List.prefix_refl _
    · exact h.in_order moment hm
  · intro before other later hcalls
    rcases List.eq_nil_or_concat later with rfl | ⟨more, last, rfl⟩
    · obtain ⟨rfl, -⟩ := List.append_inj' hcalls rfl
      exact ⟨h.all_iff.mpr rfl, rfl⟩
    · -- A flush with a call behind it would be one of the writes.
      rw [List.concat_eq_append, ← List.cons_append, ← List.append_assoc] at hcalls
      obtain ⟨rfl, -⟩ := List.append_inj' hcalls rfl
      exact absurd (List.mem_append_right before List.mem_cons_self) (h.not_mem_flush other)
  · rw [if_pos hall, List.countP_append, h.countP_isFlush]
    rfl
  · rw [hmem]
    cases answer with
    | ok => exact iff_of_true rfl ⟨hall, rfl⟩
    | error failure => exact iff_of_false nofun fun hok => nomatch hok.2
  · intro failure hm
    rw [← (hmem _).mp hm]
    rfl

theorem not_tooLarge {result : Except FrameError Unit} (h : Delivered frame calls result)
    (size : Nat) (limit : UInt32) : result ≠ .error (.tooLarge size limit) := by
  by_cases hall : brought calls = frame
  · have honce : 0 < calls.countP SinkCall.isFlush := by
      rw [h.flush_once, if_pos hall]
      exact Nat.one_pos
    obtain ⟨call, hm, hf⟩ := List.countP_pos_iff.mp honce
    match call with
    | .flush (.ok ()) => rw [h.ok_iff.mpr ⟨hall, hm⟩]; exact nofun
    | .flush (.error failure) => rw [h.flush_failed failure hm]; exact nofun
  · obtain ⟨failure, -, hresult⟩ := h.write_failed hall
    rw [hresult]
    exact nofun

end Delivered

namespace Sink

/-- **One frame**: the flush stands behind the writes if none of them ends the writing. -/
theorem delivered_writeFrame {max : UInt32} {body : List UInt8} (h : body.length ≤ max.toNat)
    (sink : Sink) :
    ∃ calls, sink.Receives calls (sink.writeFrame max body).2 ∧
      Delivered (bigEndian 4 body.length ++ body) calls (sink.writeFrame max body).1 := by
  obtain ⟨calls, hcalls, hoffered⟩ := offered_writeAll sink (encode body)
  cases hrun : sink.writeAll (encode body) with
  | mk result written =>
    rw [hrun] at hcalls hoffered
    cases result with
    | error failure =>
      simp only [writeFrame, make_of_le h, hrun]
      exact ⟨calls, hcalls, .of_refused hoffered⟩
    | ok =>
      simp only [writeFrame, make_of_le h, hrun]
      exact ⟨calls ++ [SinkCall.flush written.flush.1], hcalls.append (.flush (.nothing _)),
        .of_flushed hoffered _⟩

/-- **A frame is brought in order, as far as the sink takes it.** A body over the limit is refused,
and it alone is refused so; then no call is made. The calls that any other body makes, which the
sink keeps with its answers, deliver the frame: the length in four bytes, and the body. -/
theorem all_or_nothing (max : UInt32) (body : List UInt8) (sink : Sink) :
    let result := (sink.writeFrame max body).1
    let after := (sink.writeFrame max body).2
    ((∃ size limit, result = .error (.tooLarge size limit)) ↔ max.toNat < body.length) ∧
      (max.toNat < body.length → result = .error (.tooLarge body.length max) ∧ after = sink) ∧
      (body.length ≤ max.toNat → ∃ calls, sink.Receives calls after ∧
        after.calls.toList = sink.calls.toList ++ calls ∧
        Delivered (bigEndian 4 body.length ++ body) calls result) := by
  intro result after
  have hrefused : max.toNat < body.length →
      result = .error (.tooLarge body.length max) ∧ after = sink := by
    intro hover
    simp only [result, after, writeFrame, make_of_lt hover, and_self]
  refine ⟨⟨?_, fun hover => ⟨_, _, (hrefused hover).1⟩⟩, hrefused, ?_⟩
  · intro hlarge
    obtain ⟨size, limit, hresult⟩ := hlarge
    refine Nat.lt_of_not_le fun hle => ?_
    obtain ⟨calls, -, hdelivered⟩ := delivered_writeFrame hle sink
    exact hdelivered.not_tooLarge size limit hresult
  · intro hle
    obtain ⟨calls, hcalls, hdelivered⟩ := delivered_writeFrame hle sink
    exact ⟨calls, hcalls, hcalls.calls_eq, hdelivered⟩

/-- Two bytes are taken, a write is interrupted, one byte more is taken, and then none; the flush
is not called. -/
example :
    let sink : Sink := { writes := [.ok 2, .error ⟨.interrupted, .bare⟩, .ok 1, .ok 0] }
    let written := sink.writeFrame 64 [7, 8]
    written.1 = .error (.failed .nothingWritten) ∧ written.2.taken = #[0, 0, 0] ∧
      written.2.flushed = 0 :=
  ⟨by cbv, by cbv, by cbv⟩

end Sink

end Parley.Frame
