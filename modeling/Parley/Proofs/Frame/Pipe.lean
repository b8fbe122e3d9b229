import Parley.Proofs.Buffer.Ending
import Parley.Proofs.Frame.Collect
import Parley.Frame.Pipe
import Mathlib.Data.List.Flatten

/-!
# Frames come through a buffer as they were written

A ring may be smaller than a header, so frames go into it and come out of it in pieces of any
sizes, whichever way the two threads take their turns.

**The invariant** (`Follows`). The reader's outcomes and the bytes that it leaves do not depend on
the pieces: what it has collected, and what it would collect of all that is still coming if that
came in one piece (`Collector.future`), is at all times what one reading of the whole stream comes
to (`collect`). A turn of the writer leaves what is coming as it is, and a read moves bytes
from there into the frame being put together.

**Theorem (`frames_through`).** After every schedule the reader has got a part of these answers, in
order; the threads come to their ends in every way of going on; and then the answers are all
given, and no byte is left over or missing.
-/

namespace Parley.Frame.Pipe

open Buffer (Coupling Pair Party)
open Buffer.Coupling (Sound Over Advances)

namespace Collector

variable {max : UInt32} {collector : Collector} {coming : List UInt8}

/-- How far the reader is from its end. -/
def rank (collector : Collector) : Nat :=
  match collector.phase with
  | .assembling _ => 4
  | .draining => 3
  | .finished => 2

/-- What the reader will have collected and left if `coming` is all that it still gets. -/
def future (collector : Collector) (coming : List UInt8) : List Outcome × List UInt8 :=
  match collector.phase with
  | .assembling assembly =>
    let (outcomes, left) := collect collector.max (assembly.bytes ++ coming)
    (collector.outcomes.toList ++ outcomes, collector.rest.toList ++ left)
  | .draining | .finished => (collector.outcomes.toList, collector.rest.toList ++ coming)

/-- The header of a frame being put together has been checked. -/
def Within (max : UInt32) (collector : Collector) : Prop :=
  collector.max = max ∧ ∀ assembly, collector.phase = .assembling assembly → assembly.Within max

/-- What a read's result makes of the reader. -/
inductive Receives (collector : Collector) : Option (List UInt8) → Collector → Prop
  | more {result : Option (List UInt8)} {assembly next : Assembly}
      (hphase : collector.phase = .assembling assembly)
      (h : assembly.receive collector.max (.ok (result.getD [])) = .more next) :
    Receives collector result { collector with phase := .assembling next }
  | body {result : Option (List UInt8)} {assembly : Assembly} {body : List UInt8}
      (hphase : collector.phase = .assembling assembly)
      (h : assembly.receive collector.max (.ok (result.getD [])) = .done (.body body)) :
    Receives collector result { collector with
      phase := .assembling .start, outcomes := collector.outcomes.push (.body body) }
  /-- Something else than a frame has come. -/
  | other {result : Option (List UInt8)} {assembly : Assembly} {outcome : Outcome}
      (hphase : collector.phase = .assembling assembly)
      (h : assembly.receive collector.max (.ok (result.getD [])) = .done outcome)
      (hnot : ¬outcome.IsBody) :
    Receives collector result { collector with
      phase := .draining, outcomes := collector.outcomes.push outcome }
  | drains (hphase : collector.phase = .draining) (bytes : List UInt8) :
    Receives collector (some bytes) { collector with
      phase := .draining, rest := collector.rest ++ bytes }
  | ends (hphase : collector.phase = .draining) :
    Receives collector none { collector with phase := .finished }
  | nothing (hphase : collector.phase = .finished) (result : Option (List UInt8)) :
    Receives collector result collector

theorem receives (collector : Collector) (result : Option (List UInt8)) :
    collector.Receives result (collector.receive result) := by
  cases hphase : collector.phase with
  | assembling assembly =>
    cases h : assembly.receive collector.max (.ok (result.getD [])) with
    | more next =>
      simp only [receive, hphase, h]
      exact .more hphase h
    | done outcome =>
      simp only [receive, hphase, h]
      cases outcome with
      | body body => exact .body hphase h
      | ended | error => exact .other hphase h id
  | draining =>
    simp only [receive, hphase]
    cases result with
    | some bytes => exact .drains hphase bytes
    | none => exact .ends hphase
  | finished =>
    simp only [receive, hphase]
    exact .nothing hphase result

theorem demand_eq_none : collector.demand = none ↔ collector.phase = .finished := by
  unfold demand
  split <;> simp_all

theorem not_isBody_of_receive_nil {assembly : Assembly} {outcome : Outcome}
    (h : assembly.receive max (.ok []) = .done outcome) : ¬outcome.IsBody := by
  cases assembly with
  | header got short =>
    simp only [Assembly.receive] at h
    split at h <;> cases h <;> exact id
  | body size got short => cases h; exact id

/-- **The reader reads until it is told of the end.** The end completes every frame as something
else, and then ends the draining. -/
theorem patient : consumer.Patient rank where
  demand_pos := by
    intro collector n hd
    simp only [consumer, demand] at hd
    split at hd
    · next assembly _ => cases hd; exact assembly.demand_pos
    · cases hd; decide
    · cases hd
  stays := by
    intro collector bytes hd
    have hreceives := collector.receives (some bytes)
    simp only [consumer, ne_eq, demand_eq_none] at hd ⊢
    generalize collector.receive (some bytes) = next at hreceives
    cases hreceives with
    | more | body | other | drains => simp
    | nothing hphase => exact hd
  rank_some := by
    intro collector bytes
    have hreceives := collector.receives (some bytes)
    simp only [consumer]
    generalize collector.receive (some bytes) = next at hreceives
    cases hreceives with
    | more hphase | body hphase | other hphase | drains hphase => simp [rank, hphase]
    | nothing => exact Nat.le_refl _
  rank_none := by
    intro collector hd
    have hreceives := collector.receives none
    simp only [consumer, ne_eq, demand_eq_none] at hd ⊢
    generalize collector.receive none = next at hreceives
    cases hreceives with
    | @more _ assembly _ hphase h =>
      obtain ⟨outcome, hdone⟩ := assembly.receive_nil collector.max
      exact nomatch h.symm.trans hdone
    | body hphase h => exact absurd trivial (not_isBody_of_receive_nil h)
    | other hphase => simp [rank, hphase]
    | ends hphase => simp [rank, hphase]
    | nothing hphase => exact absurd hphase hd
  two_le := by
    intro collector
    simp only [rank]
    split <;> decide

/-! ## What the reader will have collected -/

theorem future_assembling {assembly : Assembly} (h : collector.phase = .assembling assembly) :
    collector.future coming =
      (collector.outcomes.toList ++ (collect collector.max (assembly.bytes ++ coming)).1,
        collector.rest.toList ++ (collect collector.max (assembly.bytes ++ coming)).2) := by
  simp only [future, h]

/-- The frame being put together is completed by the bytes that have come: they are cut off. -/
theorem cut_of_done {assembly : Assembly} {outcome : Outcome} {piece : List UInt8}
    (hw : assembly.Within max) (hne : piece ≠ []) (hle : piece.length ≤ assembly.demand)
    (h : assembly.receive max (.ok piece) = .done outcome) (coming : List UInt8) :
    Cut max (assembly.bytes ++ (piece ++ coming)) outcome coming := by
  rcases Assembly.receive_piece hw hne hle with ⟨next, hmore, -⟩ | ⟨outcome', hdone, hend, hcut⟩
  · exact nomatch h.symm.trans hmore
  · cases h.symm.trans hdone
    rw [← List.append_assoc]
    exact hcut.append hend coming

theorem bytes_of_more {assembly next : Assembly} {piece : List UInt8}
    (hw : assembly.Within max) (hne : piece ≠ []) (hle : piece.length ≤ assembly.demand)
    (h : assembly.receive max (.ok piece) = .more next) :
    next.Within max ∧ next.bytes = assembly.bytes ++ piece := by
  rcases Assembly.receive_piece hw hne hle with ⟨next', hmore, hnext⟩ | ⟨outcome, hdone, -⟩
  · cases h.symm.trans hmore
    exact hnext
  · exact nomatch h.symm.trans hdone

/-- **A piece changes nothing of what will have been collected.** -/
theorem future_receive {bytes : List UInt8} {n : Nat} (hw : collector.Within max)
    (hd : collector.demand = some n) (hne : bytes ≠ []) (hle : bytes.length ≤ n)
    (coming : List UInt8) :
    (collector.receive (some bytes)).Within max ∧
      (collector.receive (some bytes)).future coming = collector.future (bytes ++ coming) := by
  obtain ⟨rfl, hwithin⟩ := hw
  have hdemand : ∀ assembly, collector.phase = .assembling assembly →
      bytes.length ≤ assembly.demand := by
    intro assembly hphase
    simp only [demand, hphase, Option.some.injEq] at hd
    omega
  have hreceives := collector.receives (some bytes)
  generalize collector.receive (some bytes) = next at hreceives
  cases hreceives with
  | more hphase h =>
    obtain ⟨hnext, hbytes⟩ := bytes_of_more (hwithin _ hphase) hne (hdemand _ hphase) h
    refine ⟨⟨rfl, fun assembly ha => by cases ha; exact hnext⟩, ?_⟩
    rw [future_assembling hphase, future_assembling rfl, hbytes, List.append_assoc]
  | body hphase h =>
    have hcut := cut_of_done (hwithin _ hphase) hne (hdemand _ hphase) h coming
    refine ⟨⟨rfl, fun assembly ha => by cases ha; exact Assembly.within_start⟩, ?_⟩
    rw [future_assembling hphase, future_assembling rfl, collect_of_body hcut,
      Array.toList_push, List.append_assoc]
    rfl
  | other hphase h hnot =>
    have hcut := cut_of_done (hwithin _ hphase) hne (hdemand _ hphase) h coming
    refine ⟨⟨rfl, nofun⟩, ?_⟩
    rw [future_assembling hphase, collect_of_not_body hcut hnot]
    simp only [future, Array.toList_push]
  | drains hphase =>
    refine ⟨⟨rfl, nofun⟩, ?_⟩
    simp only [future, hphase, Array.toList_appendList, List.append_assoc]
  | nothing hphase => simp [demand, hphase] at hd

theorem future_receive_none (hw : collector.Within max) (hd : collector.demand ≠ none) :
    (collector.receive none).Within max ∧
      (collector.receive none).future [] = collector.future [] := by
  obtain ⟨rfl, hwithin⟩ := hw
  have hreceives := collector.receives none
  generalize collector.receive none = next at hreceives
  cases hreceives with
  | @more _ assembly _ hphase h =>
    obtain ⟨outcome, hdone⟩ := assembly.receive_nil collector.max
    exact nomatch h.symm.trans hdone
  | body hphase h => exact absurd trivial (not_isBody_of_receive_nil h)
  | other hphase h hnot =>
    obtain ⟨outcome, -, hcut, hdone⟩ := Assembly.cut_bytes (hwithin _ hphase)
    cases h.symm.trans hdone
    refine ⟨⟨rfl, nofun⟩, ?_⟩
    rw [future_assembling hphase, List.append_nil, collect_of_not_body hcut hnot]
    simp only [future, Array.toList_push]
  | ends hphase =>
    refine ⟨⟨rfl, nofun⟩, ?_⟩
    simp only [future, hphase]
  | nothing hphase => exact absurd (demand_eq_none.mpr hphase) hd

end Collector

/-! ## The two threads -/

/-- The bodies that a writer with this limit accepts. -/
def sent (max : UInt32) (bodies : List (List UInt8)) : List (List UInt8) :=
  bodies.filter fun body => body.length ≤ max.toNat

/-- What a writer with this limit answers. -/
def verdict (max : UInt32) (body : List UInt8) : Except FrameError Unit :=
  if max.toNat < body.length then .error (.tooLarge body.length max) else .ok ()

/-- All that is written: the frames of the bodies accepted, and the raw bytes. -/
def stream (max : UInt32) (bodies : List (List UInt8)) (tail : List UInt8) : List UInt8 :=
  (sent max bodies).flatMap encode ++ tail

/-- What a pipe has to come to. -/
def expected (maxWrite maxRead : UInt32) (bodies : List (List UInt8)) (tail : List UInt8) :
    Report where
  writes := bodies.map (verdict maxWrite)
  reads := (collect maxRead (stream maxWrite bodies tail)).1
  rest := (collect maxRead (stream maxWrite bodies tail)).2

section

variable {max maxWrite maxRead : UInt32} {bodies : List (List UInt8)} {tail : List UInt8}
  {coupling next : Coupling Collector} {capacity : Nat}

theorem frames_eq (max : UInt32) (bodies : List (List UInt8)) :
    (bodies.filterMap fun body => (make max body).toOption) = (sent max bodies).map encode := by
  induction bodies with
  | nil => rfl
  | cons body bodies ih =>
    by_cases hfits : body.length ≤ max.toNat
    · have hsent : sent max (body :: bodies) = body :: sent max bodies := by simp [sent, hfits]
      rw [hsent, List.filterMap_cons, make_of_le hfits, ih]
      rfl
    · have hsent : sent max (body :: bodies) = sent max bodies := by simp [sent, hfits]
      rw [hsent, List.filterMap_cons, make_of_lt (Nat.lt_of_not_le hfits), ih]
      rfl

theorem script_eq (max : UInt32) (bodies : List (List UInt8)) (tail : List UInt8) :
    script max bodies tail =
      ((sent max bodies).map encode ++ [tail]).map .write ++ [.dropWriter] := by
  rw [script, frames_eq, List.map_append, List.append_assoc]
  rfl

theorem answers_eq {written : List (Except BufferError Unit)}
    (h : ∀ result ∈ written, result = .ok ()) :
    answers max bodies written = bodies.map (verdict max) := by
  induction bodies generalizing written with
  | nil => rfl
  | cons body bodies ih =>
    by_cases hfits : body.length ≤ max.toNat
    · have hhead : written.head?.getD (.ok ()) = .ok () := by
        cases written with
        | nil => rfl
        | cons result written => exact h result List.mem_cons_self
      have htail : ∀ result ∈ written.tail, result = .ok () :=
        fun result hr => h result (List.mem_of_mem_tail hr)
      rw [answers, make_of_le hfits, List.map_cons, verdict, if_neg (Nat.not_lt.mpr hfits)]
      simp only [hhead, ih htail]
      rfl
    · have hlarge := Nat.lt_of_not_le hfits
      rw [answers, make_of_lt hlarge, List.map_cons, verdict, if_pos hlarge]
      simp only [ih h]

/-! ## What holds between the turns -/

/-- What the reader has collected and will collect is what `stream` comes to. -/
structure Follows (max : UInt32) (stream : List UInt8) (writes : Nat)
    (coupling : Coupling Collector) : Prop where
  within : coupling.reader.Within max
  future : coupling.reader.future coupling.coming = collect max stream
  writes : coupling.writes = writes

variable {bytes : List UInt8} {writes : Nat} {party : Party}

/-- **Every turn keeps the invariant.** -/
theorem Follows.turn (hs : coupling.Sound capacity Collector.consumer)
    (h : Follows max bytes writes coupling)
    (t : coupling.Turn Collector.consumer party next) : Follows max bytes writes next := by
  have hwrites := t.writes.trans h.writes
  cases hs.told Collector.patient t with
  | nothing hr hc =>
    exact { within := hr ▸ h.within, future := by rw [hr, hc, h.future], writes := hwrites }
  | bytes hd hne hle hr hc =>
    obtain ⟨hwithin, hfuture⟩ := Collector.future_receive h.within hd hne hle next.coming
    exact {
      within := hr ▸ hwithin
      future := by
        rw [hr]
        exact hfuture.trans (hc ▸ h.future)
      writes := hwrites }
  | ended hd hr hc hc' =>
    obtain ⟨hwithin, hfuture⟩ := Collector.future_receive_none h.within hd
    exact {
      within := hr ▸ hwithin
      future := by
        rw [hr, hc']
        exact hfuture.trans (hc ▸ h.future)
      writes := hwrites }

/-! ## The start and the end -/

theorem ofCapacity?_eq (hcap : 0 < capacity) :
    Pair.ofCapacity? capacity = some { buffer := { ring := .empty capacity hcap } } := by
  simp only [Pair.ofCapacity?, Buffer.ofCapacity?, dif_pos hcap, Option.map_some]

section

variable (maxWrite maxRead bodies tail)

/-- The start at a new buffer. -/
def startNew (hcap : 0 < capacity) : Coupling Collector :=
  start { buffer := { ring := .empty capacity hcap } } maxWrite maxRead bodies tail

theorem sound_startNew (hcap : 0 < capacity) :
    (startNew maxWrite maxRead bodies tail hcap).Sound capacity Collector.consumer where
  coherent := Pair.coherent_start hcap
  script := by
    show Buffer.Coupling.Scripted _ (script maxWrite bodies tail)
    rw [script_eq]
    exact .writing (by simp [startNew, start]) _
  closed := by simp [startNew, start]
  drained := nofun
  waits := nofun
  gone := nofun
  written := nofun

theorem flatMap_data_script :
    (script maxWrite bodies tail).flatMap Buffer.Action.data = stream maxWrite bodies tail := by
  rw [script_eq, List.map_append, List.map_map, List.flatMap_append, List.flatMap_append,
    List.flatMap_map]
  simp [stream]

theorem follows_startNew (hcap : 0 < capacity) :
    Follows maxRead (stream maxWrite bodies tail) ((sent maxWrite bodies).length + 1)
      (startNew maxWrite maxRead bodies tail hcap) where
  within := ⟨rfl, fun assembly ha => by cases ha; exact Assembly.within_start⟩
  future := by
    have hcoming : (startNew maxWrite maxRead bodies tail hcap).coming =
        stream maxWrite bodies tail :=
      flatMap_data_script maxWrite bodies tail
    rw [hcoming, Collector.future_assembling rfl]
    rfl
  writes := by
    show 0 + 0 + ((script maxWrite bodies tail).map Buffer.Action.writes).sum = _
    rw [script_eq]
    simp [Function.comp_def, List.map_const']

theorem length_stream_le :
    (stream maxWrite bodies tail).length ≤ (bodies.flatMap encode).length + tail.length := by
  rw [stream, List.length_append]
  have hsent : (sent maxWrite bodies).Sublist bodies := List.filter_sublist
  have hlen := (hsent.flatMap encode).length_le
  omega

theorem weight_startNew_le (hcap : 0 < capacity) :
    (startNew maxWrite maxRead bodies tail hcap).weight Collector.rank ≤
      Coupling.turnsFor ((bodies.flatMap encode).length + tail.length) (bodies.length + 3) := by
  have hstream := length_stream_le maxWrite bodies tail
  have hsent : (sent maxWrite bodies).length ≤ bodies.length := List.length_filter_le _ _
  have hscript : (script maxWrite bodies tail).length = (sent maxWrite bodies).length + 2 := by
    rw [script_eq]
    simp
  show 3 * (0 + ((script maxWrite bodies tail).flatMap Buffer.Action.data).length) + 0 +
    2 * (script maxWrite bodies tail).length + 2 + 4 ≤ _
  rw [flatMap_data_script, hscript, Coupling.turnsFor]
  omega

end

/-- Programs that are over have come to what they have to. -/
theorem Follows.report_eq (hs : coupling.Sound capacity Collector.consumer)
    (hover : coupling.Over)
    (h : Follows maxRead (stream maxWrite bodies tail) writes coupling) :
    report maxWrite bodies coupling = expected maxWrite maxRead bodies tail ∧
      coupling.written.size = writes := by
  obtain ⟨hclosed, hempty⟩ := hs.drained (hs.gone hover.2)
  have hphase := Collector.demand_eq_none.mp (hs.gone hover.2)
  have hfuture := h.future
  rw [Buffer.Coupling.coming_eq_nil hs hclosed hempty] at hfuture
  simp only [Collector.future, hphase, List.append_nil] at hfuture
  have hscript := hs.script
  rw [hover.1] at hscript
  have hwrites := h.writes
  simp only [Buffer.Coupling.writes, hover.1, hscript.eq_nil, Buffer.Writing.pending_gone,
    List.map_nil, List.sum_nil, Nat.add_zero] at hwrites
  refine ⟨?_, hwrites⟩
  have hwritten : ∀ result ∈ coupling.written.toList, result = .ok () :=
    fun result hr => hs.written result (Array.mem_toList_iff.mp hr)
  rw [report, expected, answers_eq hwritten, ← hfuture]

/-- What has been collected so far is the beginning of what has to be; after something else than
a frame it is all, and what is left is still coming. -/
theorem Follows.so_far (h : Follows maxRead bytes writes coupling) :
    coupling.reader.outcomes.toList <+: (collect maxRead bytes).1 ∧
      ((∀ assembly, coupling.reader.phase ≠ .assembling assembly) →
        coupling.reader.outcomes.toList = (collect maxRead bytes).1 ∧
          coupling.reader.rest.toList ++ coupling.coming = (collect maxRead bytes).2) := by
  have hfuture := h.future
  cases hphase : coupling.reader.phase with
  | assembling assembly =>
    rw [Collector.future_assembling hphase] at hfuture
    refine ⟨?_, fun hnot => absurd rfl (hnot assembly)⟩
    rw [← hfuture]
    exact List.prefix_append _ _
  | draining | finished =>
    simp only [Collector.future, hphase] at hfuture
    rw [← hfuture]
    exact ⟨List.prefix_rfl, fun _ => ⟨rfl, rfl⟩⟩

/-! ## What has to be read -/

theorem expected_over {before after : List (List UInt8)} {body : List UInt8}
    (hsent : sent maxWrite bodies = before ++ body :: after)
    (hbefore : ∀ small ∈ before, small.length ≤ maxRead.toNat)
    (hbody : maxRead.toNat < body.length) :
    expected maxWrite maxRead bodies tail =
      { writes := bodies.map (verdict maxWrite)
        reads := before.map .body ++ [.error (.tooLarge body.length maxRead)]
        rest := body ++ (after.flatMap encode ++ tail) } := by
  have hmem : body ∈ sent maxWrite bodies := by simp [hsent]
  have hsize : body.length < UInt32.size := by
    have hle : body.length ≤ maxWrite.toNat := by simpa [sent] using (List.mem_filter.mp hmem).2
    have hmax : maxWrite.toNat < UInt32.size := maxWrite.toNat_lt
    omega
  have hstream : stream maxWrite bodies tail =
      before.flatMap encode ++ (encode body ++ (after.flatMap encode ++ tail)) := by
    rw [stream, hsent, List.flatMap_append, List.flatMap_cons, List.append_assoc,
      List.append_assoc]
  rw [expected, hstream, collect_within hbefore, collect_over hsize hbody]

theorem expected_within (h : ∀ body ∈ sent maxWrite bodies, body.length ≤ maxRead.toNat) :
    expected maxWrite maxRead bodies tail =
      { writes := bodies.map (verdict maxWrite)
        reads := (sent maxWrite bodies).map .body ++ (collect maxRead tail).1
        rest := (collect maxRead tail).2 } := by
  rw [expected, stream, collect_within h]

end

/-- What the two threads have come to, and will come to. -/
structure Delivers (answer : Report) (bodies : List (List UInt8)) (maxWrite : UInt32)
    (coupling : Coupling Collector) : Prop where
  /-- No write into the buffer fails. -/
  written : ∀ result ∈ coupling.written, result = .ok ()
  /-- What has been read so far is the beginning of the answers. -/
  reads : coupling.reader.outcomes.toList <+: answer.reads
  /-- After something else than a frame they are complete, and what is left is still coming. -/
  left : (∀ assembly, coupling.reader.phase ≠ .assembling assembly) →
    coupling.reader.outcomes.toList = answer.reads ∧
      coupling.reader.rest.toList ++ coupling.coming = answer.rest
  /-- In the end both handles are given up, every write has ended, and all is answered. -/
  ends : Inevitable (Advances Collector.consumer) (fun last => last.Over ∧
    last.written.size = (sent maxWrite bodies).length + 1 ∧
    report maxWrite bodies last = answer) coupling

theorem delivers {maxWrite maxRead : UInt32} {bodies : List (List UInt8)} {tail : List UInt8}
    {coupling : Coupling Collector} {capacity : Nat}
    (hs : coupling.Sound capacity Collector.consumer)
    (h : Follows maxRead (stream maxWrite bodies tail) ((sent maxWrite bodies).length + 1)
      coupling) :
    Delivers (expected maxWrite maxRead bodies tail) bodies maxWrite coupling where
  written := hs.written
  reads := h.so_far.1
  left := h.so_far.2
  ends := by
    refine (hs.inevitable_over Collector.patient Follows.turn h).mono fun last hlast => ?_
    obtain ⟨hover, hsound, hfollows⟩ := hlast
    obtain ⟨hreport, hwrites⟩ := hfollows.report_eq hsound hover
    exact ⟨hover, hwrites, hreport⟩

/-- **Frames come through as they were written.** For every capacity, limits, bodies and raw tail
there is an answer that does not depend on the schedule. Every body over the writer's limit is
refused and the others are sent. If one of them is over the reader's limit, the bodies before the
first such one are read, then this one is refused with its size, and what is left begins with its
bytes. If none is, all are read, and then what the tail comes to on its own: one outcome, unless it
begins with a frame. After every schedule the threads have come to a part of this answer and cannot
miss the rest. -/
theorem frames_through (maxWrite maxRead : UInt32) (bodies : List (List UInt8))
    (tail : List UInt8) {capacity : Nat} (hcap : 0 < capacity) :
    ∃ pair answer, Pair.ofCapacity? capacity = some pair ∧
      answer.writes = bodies.map (verdict maxWrite) ∧
      (∀ before body after, sent maxWrite bodies = before ++ body :: after →
        (∀ small ∈ before, small.length ≤ maxRead.toNat) → maxRead.toNat < body.length →
        answer.reads = before.map .body ++ [.error (.tooLarge body.length maxRead)] ∧
          answer.rest = body ++ (after.flatMap encode ++ tail)) ∧
      ((∀ body ∈ sent maxWrite bodies, body.length ≤ maxRead.toNat) →
        answer.reads = (sent maxWrite bodies).map .body ++ (collect maxRead tail).1 ∧
          answer.rest = (collect maxRead tail).2) ∧
      (∀ outcome left, Cut maxRead tail outcome left → ¬outcome.IsBody →
        collect maxRead tail = ([outcome], left)) ∧
      (∀ schedule, Delivers answer bodies maxWrite
        ((start pair maxWrite maxRead bodies tail).run Collector.consumer schedule)) ∧
      run pair maxWrite maxRead bodies tail = answer := by
  have hs := sound_startNew maxWrite maxRead bodies tail hcap
  have hf := follows_startNew maxWrite maxRead bodies tail hcap
  refine ⟨_, expected maxWrite maxRead bodies tail, ofCapacity?_eq hcap, rfl, ?_, ?_,
    fun _ _ => collect_of_not_body, ?_, ?_⟩
  · intro before body after hsent hbefore hbody
    rw [expected_over hsent hbefore hbody]
    exact ⟨rfl, rfl⟩
  · intro hwithin
    rw [expected_within hwithin]
    exact ⟨rfl, rfl⟩
  · intro schedule
    obtain ⟨hsound, hfollows⟩ := hs.run Collector.patient Follows.turn hf schedule
    exact delivers hsound hfollows
  · have hweight := weight_startNew_le maxWrite maxRead bodies tail hcap
    obtain ⟨hover, hsound, hfollows⟩ := hs.over_finish Collector.patient Follows.turn hf hweight
    exact (hfollows.report_eq hsound hover).1

/-- Through a ring of three bytes, smaller than a header, come one body and what a raw tail cut off
inside a header is; a body over the writer's limit leaves no trace. -/
theorem frames_through_small_ring :
    ∃ pair, Pair.ofCapacity? 3 = some pair ∧
      run pair 2 1 [[7], [1, 2, 3], []] [0, 0] =
        { writes := [.ok (), .error (.tooLarge 3 2), .ok ()]
          reads := [.body [7], .body [], .error (.truncated 2 4)]
          rest := [] } := by
  obtain ⟨pair, answer, hpair, hwrites, -, hreads, htail, -, hrun⟩ :=
    frames_through 2 1 [[7], [1, 2, 3], []] [0, 0] (by decide : 0 < 3)
  have hcut : Cut 1 [0, 0] (.error (.truncated 2 4)) [] := .shortHeader nofun (by decide)
  obtain ⟨hreads, hrest⟩ := hreads (by decide)
  rw [htail _ _ hcut id] at hreads hrest
  refine ⟨pair, hpair, hrun.trans ?_⟩
  cases answer with
  | mk writes reads rest => cases hwrites; cases hreads; cases hrest; rfl

end Parley.Frame.Pipe
