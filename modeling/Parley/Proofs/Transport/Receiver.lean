import Parley.Proofs.Frame.Cut
import Parley.Transport.Receiver

/-!
# Reading a stream from its first byte on

What the reads of a socket bring determines what the reads of messages report. A `Receiver`
takes arrivals and reads in any order; the order makes no difference (`read_arrivals`), since a
report that can be made is not changed by what comes later.

**The transcript of a stream** (`Transcript`). A stream is cut into frames, refused headers and
at last a part of a frame or nothing. Each of them is reported once, but for a last part that
may still grow; when the stream has stopped by a failure, the failure takes the place of the
last one. From then on the stream reads as ended.

**Theorem (`Transcript.read`).** The next report is the first one of the transcript, or the end
for ever after, and behind it comes the rest of the transcript.
-/

namespace Parley

open Parley.Frame (Outcome Cut headerSize)

/-- What the reads of a socket bring, in order. -/
abbrev Arrivals := List (Except Failure (List UInt8))

namespace Arrivals

/-- The bytes brought before the stream stops. -/
def data : Arrivals → List UInt8
  | [] => []
  | .ok [] :: _ => []
  | .ok (byte :: more) :: rest => byte :: more ++ data rest
  | .error failure :: rest => if failure.kind = .interrupted then data rest else []

/-- How the stream stops, if it does. -/
def stop? : Arrivals → Option Ending
  | [] => none
  | .ok [] :: _ => some .ended
  | .ok (_ :: _) :: rest => stop? rest
  | .error failure :: rest =>
    if failure.kind = .interrupted then stop? rest else some (.failed failure)

end Arrivals

/-- The report on what a stream begins with. -/
def Report.ofOutcome : Outcome → Report
  | .body body => .ofBody body
  | .ended => .ok none
  | .error error => .error (.frame error)

namespace Receiver

variable {receiver mid rest : Receiver} {report : Report} {reports : List Report}

/-! ## Arrivals -/

theorem ending_stop (receiver : Receiver) (ending : Ending) :
    (receiver.stop ending).ending ≠ none := by
  obtain ⟨max, pending, old⟩ := receiver
  cases old with
  | none => exact Option.some_ne_none _
  | some old => exact Option.some_ne_none _

theorem arrive_of_stopped (h : receiver.ending ≠ none)
    (arrival : Except Failure (List UInt8)) : receiver.arrive arrival = receiver := by
  obtain ⟨max, pending, ending⟩ := receiver
  cases ending with
  | none => exact absurd rfl h
  | some ending =>
    cases arrival with
    | ok bytes =>
      simp only [arrive, deliver, stop]
      split <;> rfl
    | error failure =>
      simp only [arrive, stop]
      split <;> rfl

/-- An arrival adds bytes at the end and may stop the stream; what is pending does not matter. -/
theorem exists_arrive (arrival : Except Failure (List UInt8)) (max : UInt32)
    (ending : Option Ending) : ∃ more ending', ∀ pending,
      arrive { max, pending, ending } arrival =
        { max, pending := pending ++ more, ending := ending' } := by
  cases ending with
  | some ending =>
    refine ⟨[], some ending, fun pending => ?_⟩
    rw [arrive_of_stopped (by simp), List.append_nil]
  | none =>
    cases arrival with
    | ok bytes =>
      cases bytes with
      | nil => exact ⟨[], some .ended, fun pending => by rw [List.append_nil]; rfl⟩
      | cons byte more => exact ⟨byte :: more, none, fun pending => rfl⟩
    | error failure =>
      by_cases hk : failure.kind = .interrupted
      · exact ⟨[], none, fun pending => by rw [List.append_nil, arrive, if_pos hk]⟩
      · exact ⟨[], some (.failed failure), fun pending => by
          rw [List.append_nil, arrive, if_neg hk]; rfl⟩

theorem foldl_arrive (max : UInt32) (arrivals : Arrivals) : arrivals.foldl arrive { max } =
    { max, pending := arrivals.data, ending := arrivals.stop? } := by
  have hstopped : ∀ (rest : Arrivals) (stopped : Receiver), stopped.ending ≠ none →
      rest.foldl arrive stopped = stopped := by
    intro rest
    induction rest with
    | nil => exact fun _ _ => rfl
    | cons arrival rest ih =>
      intro stopped h
      rw [List.foldl_cons, arrive_of_stopped h, ih stopped h]
  -- The pending bytes are generalised: they grow along the arrivals.
  have hall : ∀ pending, arrivals.foldl arrive { max, pending } =
      { max, pending := pending ++ arrivals.data, ending := arrivals.stop? } := by
    induction arrivals with
    | nil => exact fun pending => by rw [Arrivals.data, List.append_nil]; rfl
    | cons arrival rest ih =>
      intro pending
      rw [List.foldl_cons]
      match arrival with
      | .ok [] =>
        rw [hstopped rest _ (by simp [arrive, stop]), Arrivals.data, List.append_nil]
        rfl
      | .ok (byte :: more) =>
        have hstep : arrive { max, pending } (.ok (byte :: more)) =
            { max, pending := pending ++ byte :: more } := rfl
        rw [hstep, ih, Arrivals.data, Arrivals.stop?, List.append_assoc]
      | .error failure =>
        rw [arrive, Arrivals.data, Arrivals.stop?]
        by_cases hk : failure.kind = .interrupted
        · rw [if_pos hk, if_pos hk, if_pos hk, ih]
        · rw [if_neg hk, if_neg hk, if_neg hk, hstopped rest _ (by simp [stop]), List.append_nil]
          rfl
  exact hall []

/-! ## One read -/

/-- A whole frame or a refused header is reported at once. -/
theorem read_of_cut {max : UInt32} {pending left : List UInt8} {outcome : Outcome}
    (h : Cut max pending outcome left) (hend : ¬outcome.IsEnd) (ending : Option Ending) :
    ({ max, pending, ending } : Receiver).read =
      (some (.ofOutcome outcome), { max, pending := left, ending }) := by
  rw [read, Frame.parse_of_cut h]
  cases h with
  | ended | shortHeader | shortBody => exact absurd trivial hend
  | tooLarge | frame => rfl

/-- Anything less is reported when the stream has stopped. -/
theorem read_of_cut_end {max : UInt32} {pending left : List UInt8} {outcome : Outcome}
    (h : Cut max pending outcome left) (hend : outcome.IsEnd) (ending : Option Ending) :
    ({ max, pending, ending } : Receiver).read =
      atEnd { max, pending, ending } (.ofOutcome outcome) := by
  rw [read, Frame.parse_of_cut h]
  cases h with
  | ended | shortHeader | shortBody => rfl
  | tooLarge | frame => cases hend

/-- A report does not wait for what arrives after it could be made. -/
theorem read_arrive (h : receiver.read = (some report, rest))
    (arrival : Except Failure (List UInt8)) :
    (receiver.arrive arrival).read = (some report, rest.arrive arrival) := by
  obtain ⟨max, pending, ending⟩ := receiver
  obtain ⟨outcome, left, hcut⟩ := Frame.exists_cut max pending
  by_cases hend : outcome.IsEnd
  · rw [read_of_cut_end hcut hend] at h
    cases ending with
    | none => cases h
    | some ending =>
      rw [arrive_of_stopped (by simp), read_of_cut_end hcut hend, h]
      have hrest : rest.ending ≠ none := by
        cases ending <;> cases h <;> simp
      rw [arrive_of_stopped hrest]
  · obtain ⟨more, ending', harrive⟩ := exists_arrive arrival max ending
    rw [read_of_cut hcut hend] at h
    cases h
    rw [harrive, harrive, read_of_cut (hcut.append hend more) hend]

theorem read_arrivals (h : receiver.read = (some report, rest)) (arrivals : Arrivals) :
    (arrivals.foldl arrive receiver).read = (some report, arrivals.foldl arrive rest) := by
  induction arrivals generalizing receiver rest with
  | nil => exact h
  | cons arrival arrivals ih => exact ih (read_arrive h arrival)

theorem exists_read (h : receiver.ending ≠ none) :
    ∃ report rest, receiver.read = (some report, rest) := by
  obtain ⟨max, pending, ending⟩ := receiver
  obtain ⟨outcome, left, hcut⟩ := Frame.exists_cut max pending
  by_cases hend : outcome.IsEnd
  · rw [read_of_cut_end hcut hend]
    cases ending with
    | none => exact absurd rfl h
    | some ending => cases ending <;> exact ⟨_, _, rfl⟩
  · rw [read_of_cut hcut hend]
    exact ⟨_, _, rfl⟩

theorem isSome_read (h : receiver.read = (some report, rest)) :
    rest.ending.isSome = receiver.ending.isSome := by
  obtain ⟨max, pending, ending⟩ := receiver
  obtain ⟨outcome, left, hcut⟩ := Frame.exists_cut max pending
  by_cases hend : outcome.IsEnd
  · rw [read_of_cut_end hcut hend] at h
    cases ending with
    | none => cases h
    | some ending => cases ending <;> cases h <;> rfl
  · rw [read_of_cut hcut hend] at h
    cases h
    rfl

/-- A turn of a reader leaves the receiver as it is, or ends with the report of its read. -/
def Tells (receiver : Receiver) : Option Report → Receiver → Prop
  | none, rest => rest = receiver
  | some told, rest => receiver.read = (some told, rest)

end Receiver

/-! ## Transcripts -/

/-- The report on a stream that breaks off inside a frame. -/
def Ending.report (error : FrameError) : Ending → Report
  | .ended => .error (.frame error)
  | .failed failure => .error (.failed failure)

/-- The reports on a stream, one for each piece that it is cut into. -/
inductive Transcript (max : UInt32) (ending : Option Ending) :
    List UInt8 → List Report → Prop
  /-- The stream is open, and what has come of the next frame is not the whole of it. -/
  | waiting {got : List UInt8} {outcome : Outcome} (h : ending = none)
      (hcut : Cut max got outcome []) (hend : outcome.IsEnd) : Transcript max ending got []
  | ended (h : ending = some .ended) : Transcript max ending [] []
  | failed {failure : Failure} (h : ending = some (.failed failure)) :
    Transcript max ending [] [.error (.failed failure)]
  | shortHeader {stopped : Ending} {got : List UInt8} (h : ending = some stopped)
      (hne : got ≠ []) (hshort : got.length < headerSize) :
    Transcript max ending got [stopped.report (.truncated got.length headerSize)]
  | shortBody {stopped : Ending} {size : Nat} {got : List UInt8} (h : ending = some stopped)
      (hs : size ≤ max.toNat) (hshort : got.length < size) :
    Transcript max ending (bigEndian headerSize size ++ got)
      [stopped.report (.truncated got.length size)]
  | tooLarge {size : Nat} {rest : List UInt8} {reports : List Report} (hs : size < UInt32.size)
      (h : max.toNat < size) (t : Transcript max ending rest reports) :
    Transcript max ending (bigEndian headerSize size ++ rest)
      (.error (.frame (.tooLarge size max)) :: reports)
  | frame {body rest : List UInt8} {reports : List Report} (h : body.length ≤ max.toNat)
      (t : Transcript max ending rest reports) :
    Transcript max ending (Frame.encode body ++ rest) (.ofBody body :: reports)

/-- Every stream has a transcript; the induction is on its length. -/
theorem exists_transcript (max : UInt32) (ending : Option Ending) (stream : List UInt8) :
    ∃ reports, Transcript max ending stream reports := by
  generalize hn : stream.length = n
  induction n using Nat.strongRecOn generalizing stream with
  | ind n ih =>
    obtain ⟨outcome, left, hcut⟩ := Frame.exists_cut max stream
    by_cases hopen : ending = none ∧ outcome.IsEnd
    · obtain rfl := hcut.rest_eq_nil hopen.2
      exact ⟨_, .waiting hopen.1 hcut hopen.2⟩
    have hstopped (hend : outcome.IsEnd) : ∃ stopped, ending = some stopped :=
      Option.ne_none_iff_exists'.mp fun hnone => hopen ⟨hnone, hend⟩
    cases hcut with
    | ended =>
      obtain ⟨stopped, rfl⟩ := hstopped trivial
      cases stopped with
      | ended => exact ⟨_, .ended rfl⟩
      | failed failure => exact ⟨_, .failed rfl⟩
    | shortHeader hne h =>
      obtain ⟨stopped, hstop⟩ := hstopped trivial
      exact ⟨_, .shortHeader hstop hne h⟩
    | shortBody hs h =>
      obtain ⟨stopped, hstop⟩ := hstopped trivial
      exact ⟨_, .shortBody hstop hs h⟩
    | tooLarge hs h =>
      obtain ⟨reports, ht⟩ := ih left.length
        (by rw [← hn, List.length_append, length_bigEndian, headerSize]; omega) left rfl
      exact ⟨_, .tooLarge hs h ht⟩
    | frame h =>
      obtain ⟨reports, ht⟩ := ih left.length
        (by
          rw [← hn, List.length_append, Frame.encode, List.length_append, length_bigEndian,
            headerSize]
          omega) left rfl
      exact ⟨_, .frame h ht⟩

section Read

variable {max : UInt32} {ending : Option Ending} {stream : List UInt8} {reports : List Report}
  {report : Report} {rest : Receiver}

/-- **A read reports the next piece**, and the end behind all of them. -/
theorem Transcript.read (ht : Transcript max ending stream reports)
    (h : ({ max, pending := stream, ending } : Receiver).read = (some report, rest)) :
    report = reports.headD (.ok none) ∧ rest.max = max ∧
      Transcript max rest.ending rest.pending reports.tail := by
  have hbroken : ∀ {got : List UInt8} {error : FrameError} {stopped : Ending},
      Cut max got (.error error) [] → (Outcome.error error).IsEnd →
      ({ max, pending := got, ending := some stopped } : Receiver).read = (some report, rest) →
      report = stopped.report error ∧ rest.max = max ∧
        Transcript max rest.ending rest.pending [] := by
    intro got error stopped hcut hend hread
    rw [Receiver.read_of_cut_end hcut hend] at hread
    cases stopped <;> cases hread <;> exact ⟨rfl, rfl, .ended rfl⟩
  cases ht with
  | waiting hopen hcut hend =>
    subst hopen
    rw [Receiver.read_of_cut_end hcut hend] at h
    cases h
  | ended hstop | failed hstop =>
    subst hstop
    cases h
    exact ⟨rfl, rfl, .ended rfl⟩
  | shortHeader hstop hne hshort =>
    subst hstop
    exact hbroken (.shortHeader hne hshort) trivial h
  | shortBody hstop hs hshort =>
    subst hstop
    exact hbroken (.shortBody hs hshort) trivial h
  | tooLarge hs hlarge t =>
    rw [Receiver.read_of_cut (.tooLarge hs hlarge _) Outcome.not_isEnd_tooLarge] at h
    cases h
    exact ⟨rfl, rfl, t⟩
  | frame hle t =>
    rw [Receiver.read_of_cut (.frame hle _) Outcome.not_isEnd_body] at h
    cases h
    exact ⟨rfl, rfl, t⟩

theorem Transcript.ended_of_read (ht : Transcript max ending stream [])
    (h : ({ max, pending := stream, ending } : Receiver).read = (some report, rest)) :
    ending = some .ended := by
  cases ht with
  | waiting hopen hcut hend =>
    subst hopen
    rw [Receiver.read_of_cut_end hcut hend] at h
    cases h
  | ended hstop => exact hstop

/-- An open stream without a whole piece has nothing to report. -/
theorem Transcript.eq_nil_of_isEnd {outcome : Outcome} (ht : Transcript max none stream reports)
    (hcut : Cut max stream outcome []) (hend : outcome.IsEnd) : reports = [] := by
  cases ht with
  | waiting => rfl
  | ended h | failed h | shortHeader h | shortBody h => cases h
  | tooLarge hs h =>
    obtain ⟨rfl, -⟩ := hcut.unique (.tooLarge hs h _)
    cases hend
  | frame h =>
    obtain ⟨rfl, -⟩ := hcut.unique (.frame h _)
    cases hend

end Read

/-- These reports are still to come, from a stream that stops or stays open. -/
def Receiver.Promises (receiver : Receiver) (stops : Bool) (more : List Report) : Prop :=
  receiver.ending.isSome = stops ∧ Transcript receiver.max receiver.ending receiver.pending more

theorem Receiver.Promises.read {receiver rest : Receiver} {stops : Bool} {more : List Report}
    {report : Report} (h : receiver.Promises stops more)
    (hr : receiver.read = (some report, rest)) :
    report = more.headD (.ok none) ∧ (more = [] → stops = true) ∧
      rest.Promises stops more.tail := by
  obtain ⟨hstops, ht⟩ := h
  obtain ⟨hreport, hmax, hrest⟩ := ht.read hr
  refine ⟨hreport, ?_, (isSome_read hr).trans hstops, hmax ▸ hrest⟩
  intro hmore
  rw [hmore] at ht
  rw [← hstops, ht.ended_of_read hr]
  rfl

/-- The first `n` of these reports, and the end for ever after. -/
def firstReports (reports : List Report) (n : Nat) : List Report :=
  (reports ++ List.replicate n (Except.ok none : Report)).take n

theorem firstReports_succ (reports : List Report) (n : Nat) :
    firstReports reports (n + 1) = reports.headD (.ok none) :: firstReports reports.tail n := by
  cases reports with
  | nil => simp [firstReports, List.replicate_succ]
  | cons report reports =>
    rw [firstReports, List.cons_append, List.take_succ_cons, List.replicate_succ',
      ← List.append_assoc, List.take_append_of_le_length (by simp)]
    rfl

/-- **Reading reports the transcript**, and the end for ever after. -/
theorem Transcript.reads {max : UInt32} {ending : Option Ending} {stream : List UInt8}
    {reports : List Report} (ht : Transcript max ending stream reports) (hs : ending ≠ none)
    (n : Nat) :
    ({ max, pending := stream, ending } : Receiver).reads n = firstReports reports n := by
  induction n generalizing ending stream reports with
  | zero => rfl
  | succ n ih =>
    have hstopped : ({ max, pending := stream, ending } : Receiver).ending ≠ none := hs
    obtain ⟨report, rest, hread⟩ := Receiver.exists_read hstopped
    obtain ⟨rfl, rfl, hrest⟩ := ht.read hread
    have hnext : rest.ending ≠ none := by
      rw [← Option.isSome_iff_ne_none, Receiver.isSome_read hread]
      exact Option.isSome_iff_ne_none.mpr hs
    rw [Receiver.reads, hread, firstReports_succ]
    exact congrArg _ (ih hrest hnext)

end Parley
