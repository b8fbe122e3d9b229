import Parley.Proofs.Transport.Progress

/-!
# What is read does not depend on the schedule

A connection's owner reads what its peer sent, in the same words whichever thread goes first:
what its reads report is settled by what the socket brings.

**Theorem (`Intake.reads_transcript`).** The reports of every run are the first ones of the
transcript of the bytes that came before the stream stopped, and a read that the owner is in
the middle of inevitably comes to the next one.
-/

namespace Parley.Transport

namespace Course

variable {course next : Course} {capacity : Nat} {stops : Bool} {more transcript : List Report}

/-- These reports are still to come, from a stream that stops or stays open. -/
structure Awaits (capacity : Nat) (stops : Bool) (more : List Report) (course : Course) :
    Prop where
  live : course.Live capacity
  reads : ∃ receiver, course.intake.Tracks capacity receiver ∧
    (course.script.foldl Receiver.arrive receiver).Promises stops more

section Step

variable {intake intake' : Intake} {move : Move} {script : Arrivals} {past reports : List Report}

theorem Awaits.goes
    (h : Awaits capacity stops more ⟨intake, Move.arrivals [move] ++ script, past⟩)
    (hs : intake.step move = some (intake', none)) :
    Awaits capacity stops more ⟨intake', script, reports⟩ := by
  obtain ⟨receiver, htracks, hpromises⟩ := h.reads
  obtain ⟨rest, hrest, htells⟩ := htracks.step hs
  obtain rfl := htells
  simp only [List.foldl_append] at hpromises
  exact ⟨h.live.step hs, _, hrest, hpromises⟩

theorem Awaits.told {told : Report}
    (h : Awaits capacity stops more ⟨intake, Move.arrivals [move] ++ script, past⟩)
    (hs : intake.step move = some (intake', some told)) :
    told = more.headD (.ok none) ∧ (more = [] → stops = true) ∧
      Awaits capacity stops more.tail ⟨intake', script, reports⟩ := by
  obtain ⟨receiver, htracks, hpromises⟩ := h.reads
  obtain ⟨rest, hrest, htells⟩ := htracks.step hs
  simp only [List.foldl_append] at hpromises
  obtain ⟨htold, hstops, hnext⟩ := hpromises.read (Receiver.read_arrivals htells script)
  exact ⟨htold, hstops, h.live.step hs, rest, hrest, hnext⟩

/-- The end that a socket finds when it has been shut down concerns nobody. -/
theorem Awaits.shut (h : Awaits capacity stops more ⟨intake, script, past⟩)
    (hshut : intake.shut = true) (hs : intake.arrive (.ok []) = some intake') :
    Awaits capacity stops more ⟨intake', script, reports⟩ := by
  obtain ⟨receiver, -, hpromises⟩ := h.reads
  have hlive : Live capacity ⟨intake', script, reports⟩ := h.live.shut hs
  have harrives := Intake.arrives_of_arrive hs
  have hnot : ¬intake'.owner.Present := by
    have howner : intake'.owner = intake.owner := by cases harrives <;> rfl
    rw [howner]
    exact (h.live.sound.shut.mp hshut).not_present
  exact ⟨hlive, receiver, ⟨hlive.sound, fun hp => absurd hp hnot⟩, hpromises⟩

end Step

/-- A connection that is used up has nothing to report any more, and its stream is open. -/
theorem Awaits.of_starved (h : course.Awaits capacity stops more) (hs : course.Starved) :
    stops = false ∧ more = [] := by
  obtain ⟨intake, script, reports⟩ := course
  obtain ⟨hscript, hp, hr⟩ := hs
  obtain ⟨receiver, htracks, hpromises⟩ := h.reads
  obtain ⟨pending, outcome, hend, hcut, rfl⟩ := htracks.starved hp hr
  obtain rfl : script = [] := hscript
  exact ⟨hpromises.1.symm, hpromises.2.eq_nil_of_isEnd hcut hend⟩

/-- What the owner has been told are the first reports of a transcript. -/
def Follows (capacity : Nat) (transcript : List Report) (course : Course) : Prop :=
  ∃ more, course.Awaits capacity true more ∧ ∀ n,
    firstReports transcript (course.reports.length + n) = course.reports ++ firstReports more n

theorem Follows.step {intake intake' : Intake} {move : Move} {report : Option Report}
    {script : Arrivals} {reports : List Report}
    (h : Follows capacity transcript ⟨intake, Move.arrivals [move] ++ script, reports⟩)
    (hs : intake.step move = some (intake', report)) :
    Follows capacity transcript ⟨intake', script, reports ++ report.toList⟩ := by
  obtain ⟨more, hawaits, hfirst⟩ := h
  cases report with
  | none =>
    rw [Option.toList_none, List.append_nil]
    exact ⟨more, hawaits.goes hs, hfirst⟩
  | some told =>
    obtain ⟨rfl, -, hnext⟩ := hawaits.told hs
    refine ⟨more.tail, hnext, fun n => ?_⟩
    have hlater := hfirst (n + 1)
    rw [firstReports_succ] at hlater
    simp only [Option.toList_some, List.length_append, List.length_singleton]
    rw [Nat.add_assoc, Nat.add_comm 1, hlater, List.append_assoc]
    rfl

theorem Follows.run {moves : List Move} {intake intake' : Intake} {script : Arrivals}
    {past reports : List Report}
    (h : Follows capacity transcript ⟨intake, Move.arrivals moves ++ script, past⟩)
    (hrun : intake.run moves = some (intake', reports)) :
    Follows capacity transcript ⟨intake', script, past ++ reports⟩ := by
  induction moves generalizing intake past reports with
  | nil =>
    cases hrun
    rwa [List.append_nil]
  | cons move moves ih =>
    simp only [Intake.run, Option.bind_eq_bind, Option.bind_eq_some_iff, Option.pure_def,
      Option.some.injEq] at hrun
    obtain ⟨⟨mid, report⟩, hstep, ⟨last, more⟩, hrest, heq⟩ := hrun
    cases heq
    have harrivals : Move.arrivals (move :: moves) = Move.arrivals [move] ++ Move.arrivals moves :=
      List.filterMap_append (l := [move])
    rw [harrivals, List.append_assoc] at h
    rw [← List.append_assoc]
    exact ih (h.step hstep) hrest

theorem Follows.advances (h : course.Follows capacity transcript) (ha : course.Advances next) :
    next.Follows capacity transcript := by
  cases ha with
  | @arrive intake intake' arrival script reports ha =>
    have hcourse : Follows capacity transcript
      ⟨intake, Move.arrivals [.arrive arrival] ++ script, reports⟩ := h
    have hnext := hcourse.step (Intake.step_arrive ha)
    rwa [Option.toList_none, List.append_nil] at hnext
  | shut hs ha =>
    obtain ⟨more, hawaits, hfirst⟩ := h
    exact ⟨more, hawaits.shut hs ha, hfirst⟩
  | @pump intake intake' script reports _ ht =>
    have hcourse : Follows capacity transcript
      ⟨intake, Move.arrivals [.pump] ++ script, reports⟩ := h
    have hnext := hcourse.step (Intake.step_pump ht)
    rwa [Option.toList_none, List.append_nil] at hnext
  | @owner intake intake' script reports report _ ht =>
    have hcourse : Follows capacity transcript
      ⟨intake, Move.arrivals [.owner] ++ script, reports⟩ := h
    exact hcourse.step ht

theorem Follows.reports_eq (h : course.Follows capacity transcript) :
    course.reports = firstReports transcript course.reports.length := by
  obtain ⟨more, -, hfirst⟩ := h
  exact ((hfirst 0).trans (List.append_nil _)).symm

theorem Advances.wants (h : course.Advances next) (hs : course.intake.Sound capacity)
    (hw : course.intake.owner.Wants) :
    next.intake.owner.Wants ∧ next.reports = course.reports ∨
      next.reports.length = course.reports.length + 1 := by
  cases h with
  | arrive ha | shut _ ha =>
    refine .inl ⟨?_, rfl⟩
    cases Intake.arrives_of_arrive ha <;> exact hw
  | pump _ ht =>
    refine .inl ⟨?_, rfl⟩
    cases Intake.turn_of_pumpTurn ht <;> exact hw
  | @owner intake intake' script reports report _ ht =>
    cases Intake.turn_of_ownerTurn hs.owner hs.within ht with
    | adds | meetsEnd => exact .inl ⟨trivial, List.append_nil _⟩
    | waits ho => exact .inl ⟨hw, List.append_nil _⟩
    | completes | tellsFailure | tells => exact .inr List.length_append
    | shuts ho | releases ho | joins ho =>
      have hwants : intake.owner.Wants := hw
      rw [ho] at hwants
      cases hwants

/-- **A read comes to its end.** -/
theorem Follows.inevitable (h : course.Follows capacity transcript)
    (hw : course.intake.owner.Wants) :
    Inevitable Advances (fun next => next.Follows capacity transcript ∧
      next.reports.length = course.reports.length + 1) course := by
  let inv (next : Course) : Prop := next.Follows capacity transcript ∧
    next.intake.owner.Wants ∧ next.reports = course.reports
  refine inevitable_of_weight weight inv ?_ ?_ ⟨h, hw, rfl⟩
  · intro state hinv
    obtain ⟨⟨more, hawaits, -⟩, hwants, -⟩ := hinv
    rcases hawaits.live.exists_advance hwants.busy.1 hwants.busy.2 with hstarved | hnext
    · cases (hawaits.of_starved hstarved).1
    · exact .inr hnext
  · intro state next hinv hstep
    obtain ⟨hfollows, hwants, hreports⟩ := hinv
    have hnext := hfollows.advances hstep
    obtain ⟨more, hawaits, -⟩ := hfollows
    have hsound := hawaits.live.sound
    rcases hstep.wants hsound hwants with ⟨hwants', hsame⟩ | htold
    · exact .inr ⟨⟨hnext, hwants', hsame.trans hreports⟩, hstep.weight_lt hsound⟩
    · exact .inl ⟨hnext, by rw [htold, hreports]⟩

end Course

theorem Intake.exists_ofConfig? {config : Config} (h : config.validate = .ok ()) :
    ∃ start, ofConfig? config = some start := by
  have hcapacity : config.bufferCapacity ≠ 0 := by
    intro hzero
    rw [Config.validate, if_pos hzero] at h
    cases h
  rw [ofConfig?, Buffer.Pair.ofCapacity?, Buffer.ofCapacity?,
    dif_pos (Nat.pos_of_ne_zero hcapacity)]
  exact ⟨_, rfl⟩

/-- **Reads do not depend on the schedule.** Let the reads of the socket bring a script that
stops. Then there is a transcript of the bytes before the stop such that after every run of
the two threads, whatever their order and however often they woke up without cause, the owner
has been told its first reports, and the end for ever after; and a read that the owner is in
the middle of inevitably comes to the next one. -/
theorem Intake.reads_transcript {config : Config} {script : Arrivals} {ending : Ending}
    (hc : config.validate = .ok ()) (hs : script.Feasible) (he : script.stop? = some ending) :
    ∃ start transcript, ofConfig? config = some start ∧
      Transcript config.maxFrameSize (some ending) script.data transcript ∧
      ∀ moves rest intake reports, Move.arrivals moves ++ rest = script →
        start.run moves = some (intake, reports) →
        reports = firstReports transcript reports.length ∧
          (intake.owner.Wants → Inevitable Course.Advances
            (fun course => course.reports = firstReports transcript (reports.length + 1))
            ⟨intake, rest, reports⟩) := by
  obtain ⟨start, hstart⟩ := exists_ofConfig? hc
  obtain ⟨transcript, ht⟩ := exists_transcript config.maxFrameSize (some ending) script.data
  refine ⟨start, transcript, hstart, ht, ?_⟩
  intro moves rest intake reports hscript hrun
  have htracks := tracks_ofConfig? hstart
  have hpromises : (script.foldl Receiver.arrive { max := config.maxFrameSize }).Promises true
      transcript := by
    rw [Receiver.foldl_arrive, he]
    exact ⟨rfl, ht⟩
  have hfollows : Course.Follows config.bufferCapacity transcript ⟨start, script, []⟩ :=
    ⟨transcript, ⟨⟨htracks.sound, hs⟩, _, htracks, hpromises⟩, fun n => by
      rw [List.length_nil, Nat.zero_add, List.nil_append]⟩
  rw [← hscript] at hfollows
  have hreached := hfollows.run hrun
  rw [List.nil_append] at hreached
  refine ⟨hreached.reports_eq, fun hw => ?_⟩
  refine (hreached.inevitable hw).mono fun course hgoal => ?_
  rw [hgoal.1.reports_eq, hgoal.2]

/-- An empty frame, half a header and a failed read through a buffer of two bytes. -/
theorem Intake.reads_transcript_failed :
    let config : Config := { bufferCapacity := 2, maxFrameSize := 4 }
    let script : Arrivals :=
      [.ok [0, 0, 0, 0, 0], .error ⟨.interrupted, .bare⟩, .ok [0], .error .reset]
    let told : List Report := [.ok (some {})]
    config.validate = .ok () ∧ script.Feasible ∧ script.stop? = some (.failed .reset) ∧
      ∃ start intake, ofConfig? config = some start ∧
        start.run [.read, .owner, .arrive (.ok [0, 0, 0, 0, 0]), .pump, .owner, .pump, .owner,
          .read] = some (intake, told) ∧
        Inevitable Course.Advances
          (fun course => course.reports = told ++ [.error (.failed .reset)])
          ⟨intake, script.tail, told⟩ := by
  intro config script told
  have hs : script.Feasible := by
    intro chunk hm
    simp only [script, List.mem_cons, Except.ok.injEq, reduceCtorEq, List.not_mem_nil, or_false,
      false_or] at hm
    rcases hm with rfl | rfl <;> decide
  have hc : config.validate = .ok () := rfl
  have he : script.stop? = some (.failed .reset) := rfl
  let start : Intake := { max := 4, pair := { buffer := { ring := .empty 2 (by decide) } } }
  have hrun : ∃ intake, start.run [.read, .owner, .arrive (.ok [0, 0, 0, 0, 0]), .pump, .owner,
      .pump, .owner, .read] = some (intake, told) ∧ intake.owner.Wants := by
    apply Exists.intro
    constructor
    · cbv
    · trivial
  have hreads : Receiver.reads
      { max := config.maxFrameSize, pending := script.data, ending := some (.failed .reset) }
      (told.length + 1) = told ++ [.error (.failed .reset)] := by cbv
  obtain ⟨intake, hrun, hwants⟩ := hrun
  obtain ⟨first, transcript, hfirst, ht, hall⟩ := reads_transcript hc hs he
  obtain rfl : start = first := Option.some.inj hfirst
  have hnext := (hall _ script.tail _ _ rfl hrun).2 hwants
  rw [← ht.reads (Option.some_ne_none _), hreads] at hnext
  exact ⟨rfl, hs, rfl, start, intake, rfl, hrun, hnext⟩

end Parley.Transport
