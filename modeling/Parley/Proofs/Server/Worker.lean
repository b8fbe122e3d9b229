import Parley.Proofs.Server.Turns
import Parley.Proofs.Transport.Reports

/-!
# What a worker does does not depend on the schedule

A worker shares its connection with a pump and writes to a socket that takes bytes as it
likes. Its service still comes to what its stream alone says: what it hands to the handler,
what it sends, and how it ends, or that it waits for more.

**The invariant.** As long as the worker reads or writes (`Worker.On`), some reports are still
to come; serving them sends what is still to be sent, behind what is left of the response at
hand. Once it has begun to give the connection up (`Worker.Off`) nothing is left to be sent or
handled.

**Theorem (`Worker.serves_transcript`).** In every run the bytes sent and the requests handled
are the first ones of the service of the whole stream. A request is read only when the
responses to all before it have been written. And the worker inevitably comes to the end of
its service, or to wait for more, with all that was to be sent and handled.
-/

namespace Parley

open Transport (Intake Owner)

variable {σ : Type}

/-- Where a worker stands at last. -/
def Serving.last : ServiceStatus → Serving
  | .waiting => .reading
  | .closed => .done .closed
  | .dropped error => .done (.dropped error)
  | .crashed => .done .crashed

theorem Serving.last_of_ne {status : ServiceStatus} (h : status ≠ .waiting) :
    last status = done status := by
  cases status with
  | waiting => exact absurd rfl h
  | closed | dropped | crashed => rfl

/-- What is still to be written weighs more than the read that follows, and a read more than
giving the connection up. -/
def Serving.weight : Serving → Nat
  | writing left => 6 * left.length + 8
  | reading => 5
  | leaving _ | done _ => 0

namespace Worker

variable {worker worker' : Worker σ} {move : Move} {bytes : List UInt8} {capacity : Nat}

/-! ## The invariant -/

/-- A worker in the middle of its service, with what its socket has still to bring and what it
has sent. -/
structure Course (σ : Type) where
  worker : Worker σ
  script : Arrivals
  written : List UInt8

/-- What a service comes to: whether its stream stops, and what is sent and handled. -/
structure Prospect where
  stops : Bool
  sent : List UInt8
  handled : List (Message × Reply)
  status : ServiceStatus

/-- The connection of a worker, without what its owner has been told. -/
def Course.inner (course : Course σ) : Transport.Course :=
  ⟨course.worker.intake, course.script, []⟩

section Invariant

variable {prospect : Prospect} {more : List Report} {script : Arrivals} {written : List UInt8}
  {course : Course σ}

/-- The worker reads or writes, and these reports are still to come. -/
structure On (capacity : Nat) (prospect : Prospect) (more : List Report) (course : Course σ) :
    Prop where
  active : course.worker.serving = .reading ∨ ∃ left, course.worker.serving = .writing left
  fits : course.worker.serving.Fits course.worker.intake.owner
  awaits : course.inner.Awaits capacity prospect.stops more
  serves : ∃ rest later, Serves course.worker.handler course.worker.intake.max prospect.stops
      course.worker.state more rest later prospect.status ∧
    prospect.sent = course.written ++ course.worker.serving.left ++ rest ∧
    prospect.handled = course.worker.handled ++ later
  answers : course.written ++ course.worker.serving.left = responses course.worker.handled

/-- The worker gives the connection up or has done so, and nothing is still to come. -/
structure Off (capacity : Nat) (prospect : Prospect) (course : Course σ) : Prop where
  ends : course.worker.serving = .leaving prospect.status ∨
    course.worker.serving = .done prospect.status
  ended : prospect.status ≠ .waiting
  fits : course.worker.serving.Fits course.worker.intake.owner
  live : course.inner.Live capacity
  sent : course.written = prospect.sent
  handled : course.worker.handled = prospect.handled

/-- The service has come to what it comes to. -/
structure Settled (prospect : Prospect) (course : Course σ) : Prop where
  serving : course.worker.serving = .last prospect.status
  sent : course.written = prospect.sent
  handled : course.worker.handled = prospect.handled

theorem off_quit (hl : Transport.Course.Live capacity ⟨worker.intake, script, []⟩)
    (ho : worker.intake.owner = .idle) (hended : prospect.status ≠ .waiting)
    (hsent : written = prospect.sent) (hhandled : worker.handled = prospect.handled) :
    Off capacity prospect ⟨worker.quit prospect.status, script, written⟩ where
  ends := .inl rfl
  ended := hended
  fits := trivial
  live := ⟨hl.sound.leave ho, hl.feasible⟩
  sent := hsent
  handled := hhandled

theorem On.told_turn (h : On capacity prospect more ⟨worker, script, written⟩)
    (hs : worker.serving = .reading) {intake : Intake} {report : Report}
    (hstep : worker.intake.step .owner = some (intake, some report))
    (ho : intake.owner = .idle) :
    (∃ report' later, more = report' :: later ∧
        On capacity prospect later ⟨take { worker with intake } report, script, written⟩) ∨
      Off capacity prospect ⟨take { worker with intake } report, script, written⟩ := by
  obtain ⟨rest, later, hserves, hsent, hhandled⟩ := h.serves
  have hmax : intake.max = worker.intake.max :=
    Intake.Sound.step_max h.awaits.live.sound hstep
  have hawaits : Transport.Course.Awaits capacity prospect.stops more
    ⟨worker.intake, Transport.Move.arrivals [.owner] ++ script, []⟩ := h.awaits
  have htold : report = more.headD (.ok none) ∧ (more = [] → prospect.stops = true) ∧
    Transport.Course.Awaits capacity prospect.stops more.tail ⟨intake, script, []⟩ :=
    hawaits.told hstep
  obtain ⟨rfl, hstops, hnext⟩ := htold
  simp only [hs, Serving.left, List.append_nil] at hsent
  have hidle : ({ worker with intake } : Worker σ).intake.owner = .idle := ho
  obtain ⟨stops, sent, handled, status⟩ := prospect
  cases hserves with
  | waiting _ hopen => cases hopen.symm.trans (hstops rfl)
  | closed =>
    rw [List.append_nil] at hsent hhandled
    exact .inr (off_quit hnext.live hidle nofun hsent.symm hhandled.symm)
  | dropped =>
    rw [List.append_nil] at hsent hhandled
    exact .inr (off_quit hnext.live hidle nofun hsent.symm hhandled.symm)
  | refused _ hh =>
    rw [List.append_nil] at hsent
    rw [List.headD_cons, take, handle_refusal { worker with intake } hh]
    exact .inr (off_quit hnext.live ho nofun hsent.symm hhandled.symm)
  | crashed _ hh =>
    rw [List.append_nil] at hsent
    rw [List.headD_cons, take, handle_crash { worker with intake } hh]
    exact .inr (off_quit hnext.live ho nofun hsent.symm hhandled.symm)
  | tooLarge _ hh hlarge =>
    rw [List.append_nil] at hsent
    rw [List.headD_cons, take, handle_tooLarge { worker with intake } hh (by rwa [hmax]), hmax]
    exact .inr (off_quit hnext.live ho nofun hsent.symm hhandled.symm)
  | @answered _ next request response more rest later _ hh hfits hmore =>
    rw [List.headD_cons, take, handle_answer { worker with intake } hh (by rwa [hmax])]
    refine .inl ⟨_, _, rfl, ?_⟩
    exact {
      active := .inr ⟨_, rfl⟩
      fits := ho
      awaits := hnext
      serves := by
        refine ⟨rest, later, ?_, ?_, ?_⟩
        · rwa [hmax]
        · rw [hsent, List.append_assoc]; rfl
        · rw [hhandled, List.append_assoc]; rfl
      answers := by
        have hanswers := h.answers
        simp only [hs, Serving.left, List.append_nil] at hanswers
        rw [responses_concat, ← hanswers]
        rfl }

theorem On.goes (h : On capacity prospect more ⟨worker, Move.arrivals [move] ++ script, written⟩)
    {inner : Transport.Move} {intake : Intake} (hm : move.inner? = some inner)
    (hstep : worker.intake.step inner = some (intake, none))
    (hf : worker.serving.Fits intake.owner) :
    On capacity prospect more ⟨{ worker with intake }, script, written⟩ := by
  obtain ⟨rest, later, hserves, hsent, hhandled⟩ := h.serves
  have hawaits := h.awaits
  simp only [Course.inner, Move.arrivals, List.filterMap_cons, hm, List.filterMap_nil] at hawaits
  exact {
    active := h.active
    fits := hf
    awaits := hawaits.goes hstep
    serves := by
      refine ⟨rest, later, ?_, hsent, hhandled⟩
      rwa [Intake.Sound.step_max hawaits.live.sound hstep]
    answers := h.answers }

theorem On.writes (h : On capacity prospect more ⟨worker, script, written⟩)
    {left : List UInt8} (hs : worker.serving = .writing left) (n : Nat) :
    On capacity prospect more
      ⟨{ worker with serving := .writing (left.drop n) }, script, written ++ left.take n⟩ := by
  obtain ⟨rest, later, hserves, hsent, hhandled⟩ := h.serves
  have hfits := h.fits
  have hanswers := h.answers
  simp only [hs, Serving.left] at hfits hsent hanswers
  have hall : (written ++ left.take n) ++ left.drop n = written ++ left := by
    rw [List.append_assoc, List.take_append_drop]
  exact {
    active := .inr ⟨_, rfl⟩
    fits := hfits
    awaits := h.awaits
    serves := ⟨rest, later, hserves, by rw [hsent, ← hall]; rfl, hhandled⟩
    answers := hall.trans hanswers }

theorem On.reads (h : On capacity prospect more ⟨worker, script, written⟩)
    (hs : worker.serving = .writing []) {intake : Intake}
    (hstep : worker.intake.step .read = some (intake, none)) (ho : intake.owner.Wants) :
    On capacity prospect more ⟨{ worker with serving := .reading, intake }, script, written⟩ := by
  obtain ⟨rest, later, hserves, hsent, hhandled⟩ := h.serves
  have hanswers := h.answers
  simp only [hs, Serving.left] at hsent hanswers
  have hawaits : Transport.Course.Awaits capacity prospect.stops more
    ⟨worker.intake, Transport.Move.arrivals [.read] ++ script, []⟩ := h.awaits
  exact {
    active := .inl rfl
    fits := ho
    awaits := hawaits.goes hstep
    serves := by
      refine ⟨rest, later, ?_, hsent, hhandled⟩
      rwa [Intake.Sound.step_max hawaits.live.sound hstep]
    answers := hanswers }

/-- A worker that reads in vain has come to what its service comes to. -/
theorem On.settled (h : On capacity prospect more course) (hs : course.worker.serving = .reading)
    (hstarved : course.inner.Starved) : Settled prospect course := by
  obtain ⟨rest, later, hserves, hsent, hhandled⟩ := h.serves
  obtain ⟨hopen, rfl⟩ := h.awaits.of_starved hstarved
  rw [hs, Serving.left] at hsent
  obtain ⟨stops, sent, handled, status⟩ := prospect
  cases hserves with
  | waiting =>
    exact {
      serving := hs
      sent := by simpa using hsent.symm
      handled := by simpa using hhandled.symm }
  | closed _ hstops => cases hopen.symm.trans hstops

def Course.weight (course : Course σ) : Nat :=
  course.inner.weight + course.worker.serving.weight

theorem inner_weight_lt (hsound : worker.intake.Sound capacity) {inner : Transport.Move}
    {intake : Intake} {report : Option Report} (hm : move.inner? = some inner)
    (hstep : worker.intake.step inner = some (intake, report))
    (ha : worker.awake move = true) :
    Transport.Course.weight ⟨intake, script, []⟩ <
      Transport.Course.weight ⟨worker.intake, Move.arrivals [move] ++ script, []⟩ := by
  simp only [awake, hm] at ha
  cases move with
  | arrive arrival =>
    cases hm
    obtain ⟨next, harrive, heq⟩ := Option.map_eq_some_iff.mp hstep
    cases heq
    exact (Transport.Course.Advances.arrive harrive).weight_lt hsound
  | pump =>
    cases hm
    obtain ⟨next, hpump, heq⟩ := Option.map_eq_some_iff.mp hstep
    cases heq
    exact (Transport.Course.Advances.pump ha hpump).weight_lt hsound
  | owner =>
    cases hm
    exact (Transport.Course.Advances.owner ha hstep).weight_lt hsound
  | push => cases hm

/-- **The worker's service goes on**: it takes a turn towards the next report and gets lighter,
comes to the next report, or comes to the end of its service. -/
theorem On.turn (h : On capacity prospect more ⟨worker, Move.arrivals [move] ++ script, written⟩)
    (t : worker.Turn move worker' bytes) :
    (On capacity prospect more ⟨worker', script, written ++ bytes⟩ ∧
        (worker.awake move = true → Course.weight ⟨worker', script, written ++ bytes⟩ <
          Course.weight ⟨worker, Move.arrivals [move] ++ script, written⟩)) ∨
      (∃ report later, more = report :: later ∧
        On capacity prospect later ⟨worker', script, written ++ bytes⟩) ∨
      Off capacity prospect ⟨worker', script, written ++ bytes⟩ := by
  cases t with
  | goes hm hstep hf =>
    rw [List.append_nil]
    refine .inl ⟨h.goes hm hstep hf, fun ha => ?_⟩
    exact Nat.add_lt_add_right (inner_weight_lt h.awaits.live.sound hm hstep ha) _
  | told hs hstep ho =>
    rw [List.append_nil]
    exact .inr (h.told_turn hs hstep ho)
  | writes hs hne hn =>
    refine .inl ⟨h.writes hs _, fun _ => ?_⟩
    have hlen := List.length_pos_iff.mpr hne
    refine Nat.add_lt_add_left ?_ _
    simp only [hs, Serving.weight, List.length_drop]
    omega
  | @reads intake n hs hstep ho =>
    rw [List.append_nil]
    refine .inl ⟨h.reads hs hstep ho, fun _ => ?_⟩
    have hidle := h.fits
    simp only [hs] at hidle
    have hread : worker.intake.owner = .idle := hidle
    simp only [Intake.step, hread] at hstep
    cases hstep
    have hhand : ({ worker.intake with owner := .reading .start } : Intake).inHand =
      worker.intake.inHand := rfl
    show _ < Course.weight ⟨worker, script, written⟩
    simp only [Course.weight, Course.inner, Transport.Course.weight, Intake.weight, hhand, hs,
      hread, Owner.weight, Serving.weight, List.length_nil]
    omega
  | ends hs =>
    rcases h.active with hreading | ⟨left, hwriting⟩
    · cases hs.symm.trans hreading
    · cases hs.symm.trans hwriting

theorem Off.turn (h : Off capacity prospect ⟨worker, Move.arrivals [move] ++ script, written⟩)
    (t : worker.Turn move worker' bytes) :
    Off capacity prospect ⟨worker', script, written ++ bytes⟩ ∧
      (worker.awake move = true → Course.weight ⟨worker', script, written ++ bytes⟩ <
        Course.weight ⟨worker, Move.arrivals [move] ++ script, written⟩) := by
  have hlive := h.live
  cases t with
  | goes hm hstep hf =>
    rw [List.append_nil]
    simp only [Course.inner, Move.arrivals, List.filterMap_cons, hm, List.filterMap_nil] at hlive
    exact ⟨{ h with fits := hf, live := hlive.step hstep }, fun ha =>
      Nat.add_lt_add_right (inner_weight_lt h.live.sound hm hstep ha) _⟩
  | @ends intake status hs hstep ho =>
    rw [List.append_nil]
    obtain rfl : prospect.status = status := by
      rcases h.ends with hleaving | hdone
      · exact Serving.leaving.inj (hleaving.symm.trans hs)
      · cases hs.symm.trans hdone
    refine ⟨{ h with ends := .inr rfl, fits := ho, live := hlive.step hstep }, fun ha => ?_⟩
    simp only [Course.weight, hs, Serving.weight]
    exact inner_weight_lt h.live.sound rfl hstep ha
  | told hs | writes hs | reads hs =>
    rcases h.ends with hleaving | hdone
    · cases hs.symm.trans hleaving
    · cases hs.symm.trans hdone

theorem Off.shut (h : Off capacity prospect ⟨worker, script, written⟩) {intake : Intake}
    (harrive : worker.intake.arrive (.ok []) = some intake) :
    Off capacity prospect ⟨{ worker with intake }, script, written⟩ := by
  have harrives := Intake.arrives_of_arrive harrive
  have howner : intake.owner = worker.intake.owner := by cases harrives <;> rfl
  have hfits : worker.serving.Fits worker.intake.owner := h.fits
  exact { h with fits := howner ▸ hfits, live := h.live.shut harrive }

/-! ## Runs -/

theorem Move.arrivals_cons (move : Move) (moves : List Move) :
    arrivals (move :: moves) = arrivals [move] ++ arrivals moves := by
  simp only [arrivals]
  rw [← List.singleton_append, List.filterMap_append]
  exact List.filterMap_append

/-- What holds of a worker after every run. -/
def Served (capacity : Nat) (prospect : Prospect) (course : Course σ) : Prop :=
  (∃ more, On capacity prospect more course) ∨ Off capacity prospect course

theorem Served.sound (h : Served capacity prospect course) :
    course.worker.intake.Sound capacity ∧
      course.worker.serving.Fits course.worker.intake.owner := by
  rcases h with ⟨more, hon⟩ | hoff
  · exact ⟨hon.awaits.live.sound, hon.fits⟩
  · exact ⟨hoff.live.sound, hoff.fits⟩

theorem Served.step
    (h : Served capacity prospect ⟨worker, Move.arrivals [move] ++ script, written⟩)
    (hs : worker.step move = some (worker', bytes)) :
    Served capacity prospect ⟨worker', script, written ++ bytes⟩ := by
  have hturn := turn_of_step h.sound.1 h.sound.2 hs
  rcases h with ⟨more, hon⟩ | hoff
  · rcases hon.turn hturn with ⟨hnext, -⟩ | ⟨_, later, -, hnext⟩ | hnext
    · exact .inl ⟨more, hnext⟩
    · exact .inl ⟨later, hnext⟩
    · exact .inr hnext
  · exact .inr (hoff.turn hturn).1

theorem Served.run {moves : List Move}
    (h : Served capacity prospect ⟨worker, Move.arrivals moves ++ script, written⟩)
    (hrun : worker.run moves = some (worker', bytes)) :
    Served capacity prospect ⟨worker', script, written ++ bytes⟩ := by
  induction moves generalizing worker written bytes with
  | nil =>
    cases hrun
    rwa [List.append_nil]
  | cons move moves ih =>
    simp only [run, Option.bind_eq_bind, Option.bind_eq_some_iff, Option.pure_def,
      Option.some.injEq] at hrun
    obtain ⟨⟨mid, first⟩, hstep, ⟨last, later⟩, hrest, heq⟩ := hrun
    cases heq
    rw [Move.arrivals_cons, List.append_assoc] at h
    rw [← List.append_assoc]
    exact ih (h.step hstep) hrest

/-! ## What a service comes to -/

/-- A read of the socket comes to its end, the socket takes bytes, or a thread takes its turn
that does not wait. Once the worker has shut the socket down, its reads find the end. -/
inductive Advances : Course σ → Course σ → Prop
  | move {worker worker' : Worker σ} {script : Arrivals} {written bytes : List UInt8} {move : Move}
    (ha : worker.awake move = true) (h : worker.step move = some (worker', bytes)) :
    Advances ⟨worker, Move.arrivals [move] ++ script, written⟩ ⟨worker', script, written ++ bytes⟩
  | shut {worker : Worker σ} {intake : Intake} {script : Arrivals} {written : List UInt8}
    (hs : worker.intake.shut = true) (h : worker.intake.arrive (.ok []) = some intake) :
    Advances ⟨worker, script, written⟩ ⟨{ worker with intake }, script, written⟩

theorem exists_advance_of_inner {next : Transport.Course} (h : course.inner.Advances next) :
    ∃ next, Advances course next := by
  obtain ⟨worker, script, written⟩ := course
  generalize hinner : (⟨worker, script, written⟩ : Course σ).inner = inner at h
  cases h with
  | @arrive _ intake arrival script _ harrive =>
    cases hinner
    have hstep : worker.step (.arrive arrival) = some ({ worker with intake }, []) := by
      rw [step, harrive]
      rfl
    exact ⟨_, .move rfl hstep⟩
  | shut hs harrive =>
    cases hinner
    exact ⟨_, .shut hs harrive⟩
  | @pump _ intake _ _ ha hpump =>
    cases hinner
    have hstep : worker.step .pump = some ({ worker with intake }, []) := by
      rw [step, hpump]
      rfl
    have hawake : worker.awake .pump = true := ha
    exact ⟨_, .move hawake hstep⟩
  | owner ha howner =>
    cases hinner
    have hstep : ∃ next, worker.step .owner = some next := by
      simp [step, turn, howner]
    obtain ⟨next, hstep⟩ := hstep
    have hawake : worker.awake .owner = true := ha
    exact ⟨_, .move hawake hstep⟩

theorem On.not_shut (h : On capacity prospect more course) :
    course.worker.intake.shut ≠ true := by
  intro hshut
  have hhas := h.awaits.live.sound.shut.mp hshut
  have hfits := h.fits
  rcases h.active with hs | ⟨left, hs⟩
  · rw [hs] at hfits
    exact hfits.not_hasShut hhas
  · rw [hs] at hfits
    have hidle : course.worker.intake.owner = .idle := hfits
    have hfalse : Owner.HasShut .idle := hidle ▸ hhas
    exact hfalse

/-- The next report is inevitable, or the end of the service, or an end of all that comes. -/
theorem On.inevitable (h : On capacity prospect more course) :
    Inevitable Advances (fun next =>
      (∃ report later, more = report :: later ∧ On capacity prospect later next) ∨
        Off capacity prospect next ∨ Settled prospect next) course := by
  refine inevitable_of_weight Course.weight (On capacity prospect more) ?_ ?_ h
  · intro state hon
    have hfits := hon.fits
    rcases hon.active with hs | ⟨left, hs⟩
    · rw [hs] at hfits
      have hbusy := Owner.Wants.busy hfits
      rcases hon.awaits.live.exists_advance hbusy.1 hbusy.2 with hstarved | ⟨next, hnext⟩
      · exact .inl (.inr (.inr (hon.settled hs hstarved)))
      · exact .inr (exists_advance_of_inner hnext)
    · obtain ⟨worker, script, written⟩ := state
      have hserving : worker.serving = .writing left := hs
      have hstep : ∃ next, worker.step (.push 1) = some next := by
        cases left <;> simp [step, push, hserving]
      obtain ⟨next, hstep⟩ := hstep
      exact .inr ⟨_, .move rfl hstep⟩
  · intro state next hon hstep
    cases hstep with
    | move ha hstep =>
      have hturn := turn_of_step hon.awaits.live.sound hon.fits hstep
      rcases hon.turn hturn with ⟨hnext, hlt⟩ | hnext | hoff
      · exact .inr ⟨hnext, hlt ha⟩
      · exact .inl (.inl hnext)
      · exact .inl (.inr (.inl hoff))
    | shut hs => exact absurd hs hon.not_shut

theorem Off.inevitable (h : Off capacity prospect course) :
    Inevitable Advances (Settled prospect) course := by
  have hsettled : ∀ {next : Course σ}, Off capacity prospect next →
      next.worker.serving = .done prospect.status → Settled prospect next := fun hnext hdone =>
    { serving := hdone.trans (Serving.last_of_ne hnext.ended).symm
      sent := hnext.sent
      handled := hnext.handled }
  rcases h.ends with hleaving | hdone
  · refine inevitable_of_weight Course.weight (fun state => Off capacity prospect state ∧
      state.worker.serving = .leaving prospect.status) ?_ ?_ ⟨h, hleaving⟩
    · rintro state ⟨hoff, hs⟩
      have hfits := hoff.fits
      rw [hs] at hfits
      have hbusy := Owner.Leaves.busy hfits
      rcases hoff.live.exists_advance hbusy.1 hbusy.2 with ⟨-, -, hwait⟩ | ⟨next, hnext⟩
      · obtain ⟨assembly, ho⟩ := hoff.live.sound.reading_of_waiting hwait
        have hleaves : Owner.Leaves (.reading assembly) := ho ▸ hfits
        cases hleaves
      · exact .inr (exists_advance_of_inner hnext)
    · rintro state next ⟨hoff, hleaves⟩ hstep
      cases hstep with
      | move ha hstep =>
        have hturn := turn_of_step hoff.live.sound hoff.fits hstep
        obtain ⟨hnext, hlt⟩ := hoff.turn hturn
        rcases hnext.ends with hleaving | hdone
        · exact .inr ⟨⟨hnext, hleaving⟩, hlt ha⟩
        · exact .inl (hsettled hnext hdone)
      | @shut worker intake script written hshut harrive =>
        refine .inr ⟨⟨hoff.shut harrive, hleaves⟩, ?_⟩
        exact Nat.add_lt_add_right
          ((Transport.Course.Advances.shut hshut harrive).weight_lt hoff.live.sound) _
  · exact .now (hsettled h hdone)

/-- **A service comes to what it comes to**; the induction is on the reports that are still to
come. -/
theorem Served.inevitable (h : Served capacity prospect course) :
    Inevitable Advances (Settled prospect) course := by
  rcases h with ⟨more, hon⟩ | hoff
  · induction more generalizing course with
    | nil =>
      refine hon.inevitable.trans fun next hnext => ?_
      rcases hnext with ⟨_, _, hmore, -⟩ | hoff | hsettled
      · cases hmore
      · exact hoff.inevitable
      · exact .now hsettled
    | cons report later ih =>
      refine hon.inevitable.trans fun next hnext => ?_
      rcases hnext with ⟨_, _, hmore, hon⟩ | hoff | hsettled
      · cases hmore
        exact ih hon
      · exact hoff.inevitable
      · exact .now hsettled
  · exact hoff.inevitable

/-- What has been sent and handled is the beginning of what is to be, and all of it when the
worker gives the connection up. -/
theorem Served.so_far (h : Served capacity prospect course) :
    course.written <+: prospect.sent ∧ course.worker.handled <+: prospect.handled ∧
      (course.worker.serving = .reading → course.written = responses course.worker.handled) ∧
      ∀ status, course.worker.serving = .leaving status ∨ course.worker.serving = .done status →
        status = prospect.status ∧ course.written = prospect.sent ∧
          course.worker.handled = prospect.handled := by
  rcases h with ⟨more, hon⟩ | hoff
  · obtain ⟨rest, later, -, hsent, hhandled⟩ := hon.serves
    refine ⟨⟨_, by rw [hsent, List.append_assoc]⟩, ⟨_, hhandled.symm⟩, fun hs => ?_, ?_⟩
    · have hanswers := hon.answers
      rwa [hs, Serving.left, List.append_nil] at hanswers
    · intro status hs
      rcases hon.active with hactive | ⟨left, hactive⟩ <;> rw [hactive] at hs
      · rcases hs with hs | hs <;> cases hs
      · rcases hs with hs | hs <;> cases hs
  · refine ⟨hoff.sent ▸ List.prefix_refl _, hoff.handled ▸ List.prefix_refl _, fun hs => ?_, ?_⟩
    · rcases hoff.ends with hends | hends
      · cases hs.symm.trans hends
      · cases hs.symm.trans hends
    · intro status hs
      refine ⟨?_, hoff.sent, hoff.handled⟩
      rcases hoff.ends with hends | hends <;> rw [hends] at hs
      · rcases hs with hs | hs
        · exact (Serving.leaving.inj hs).symm
        · cases hs
      · rcases hs with hs | hs
        · cases hs
        · exact (Serving.done.inj hs).symm

end Invariant

theorem exists_start (handler : Handler σ) (state : σ) {config : Config}
    (h : Transport.setUp config = .ok ()) :
    ∃ intake, Intake.ofConfig? config = some intake ∧ start handler state config =
      .ok { handler, state, intake := { intake with owner := .reading .start } } := by
  obtain ⟨intake, hintake⟩ := Intake.exists_ofConfig? (Transport.validate_of_setUp h)
  refine ⟨intake, hintake, ?_⟩
  rw [start, h, ofConfig?, hintake]
  rfl

/-- **A service comes to what its stream says.** Let the reads of the socket bring any script,
of a stream that stops or stays open. What is sent and handled in every run, whichever thread
goes first, is the beginning of what serving the script's data comes to; a request is read
only when the responses to all before it have been written, and a worker that gives the
connection up has sent and handled all of it. And a worker inevitably comes to where the
service ends, or waits for more. -/
theorem serves_transcript (handler : Handler σ) (state : σ) (config : Config)
    {script : Arrivals} (hs : script.Feasible) :
    let service := serve handler state
      { max := config.maxFrameSize, pending := script.data, ending := script.stop? }
    (∀ error, Transport.setUp config = .error error →
        start handler state config = .error error) ∧
      (Transport.setUp config = .ok () → ∃ worker transcript,
        start handler state config = .ok worker ∧
        Transcript config.maxFrameSize script.stop? script.data transcript ∧
        Serves handler config.maxFrameSize script.stop?.isSome state transcript service.sent
          service.handled service.status ∧
        ∀ moves rest next written, Move.arrivals moves ++ rest = script →
          worker.run moves = some (next, written) →
          written <+: service.sent ∧ next.handled <+: service.handled ∧
            (next.serving = .reading → written = responses next.handled) ∧
            (∀ status, next.serving = .leaving status ∨ next.serving = .done status →
              status = service.status ∧ written = service.sent ∧
                next.handled = service.handled) ∧
            Inevitable Advances (fun course => course.worker.serving = .last service.status ∧
              course.written = service.sent ∧ course.worker.handled = service.handled)
              ⟨next, rest, written⟩) := by
  intro service
  refine ⟨fun error herror => by rw [start, herror]; rfl, fun hsetup => ?_⟩
  obtain ⟨intake, hintake, hstart⟩ := exists_start handler state hsetup
  obtain ⟨transcript, ht⟩ := exists_transcript config.maxFrameSize script.stop? script.data
  obtain ⟨sent, handled, status, hserves⟩ := exists_serves handler config.maxFrameSize
    script.stop?.isSome state ht.not_mem_end
  obtain ⟨rfl, rfl, rfl⟩ : service.Comes sent handled status := serve_eq ht hserves
  refine ⟨_, transcript, hstart, ht, hserves, ?_⟩
  intro moves rest next written hscript hrun
  obtain ⟨hmax, hidle⟩ := Intake.ofConfig?_fresh hintake
  have htracks := (Intake.tracks_ofConfig? hintake).read hidle
  let prospect : Prospect :=
    ⟨script.stop?.isSome, service.sent, service.handled, service.status⟩
  have hon : On config.bufferCapacity prospect transcript
      ⟨{ handler, state, intake := { intake with owner := .reading .start } }, script, []⟩ := {
    active := .inl rfl
    fits := trivial
    awaits := by
      refine ⟨⟨htracks.sound, hs⟩, _, htracks, ?_⟩
      rw [Course.inner, Receiver.foldl_arrive]
      exact ⟨rfl, ht⟩
    serves := ⟨_, _, hmax ▸ hserves, rfl, rfl⟩
    answers := rfl }
  have hserved : Served config.bufferCapacity prospect ⟨next, rest, [] ++ written⟩ :=
    Served.run (hscript ▸ .inl ⟨transcript, hon⟩) hrun
  obtain ⟨hwritten, hhandled, hreads, hleaves⟩ := hserved.so_far
  refine ⟨hwritten, hhandled, hreads, hleaves, ?_⟩
  exact hserved.inevitable.mono fun course h => ⟨h.serving, h.sent, h.handled⟩

/-- A request without fields and a stream that ends in the next header. -/
theorem serves_transcript_truncated :
    let config : Config := { bufferCapacity := 2, maxFrameSize := 4 }
    let script : Arrivals := [.ok [0, 0, 0, 0, 0], .ok []]
    script.Feasible ∧ Transport.setUp config = .ok () ∧ ∃ worker : Worker Unit,
      start .echo () config = .ok worker ∧
        Inevitable Advances (fun course =>
          course.worker.serving = .done (.dropped (.frame (.truncated 1 4))) ∧
            course.written = [0, 0, 0, 0] ∧
            course.worker.handled = [({}, .response {})])
          ⟨worker, script, []⟩ := by
  intro config script
  have hs : script.Feasible := by
    intro chunk hm
    simp only [script, List.mem_cons, Except.ok.injEq, List.not_mem_nil, or_false] at hm
    rcases hm with rfl | rfl <;> decide
  have hsetup : Transport.setUp config = .ok () := rfl
  have hservice : (serve .echo ()
      { max := config.maxFrameSize, pending := script.data, ending := script.stop? }).Comes
      [0, 0, 0, 0] [({}, .response {})] (.dropped (.frame (.truncated 1 4))) := by
    let left : Receiver := { max := 4, pending := [0], ending := some .ended }
    have hfirst : Receiver.read
        { max := config.maxFrameSize, pending := script.data, ending := script.stop? } =
        (some (.ok (some {})), left) := by cbv
    have hsecond : left.read = (some (.error (.frame (.truncated 1 4))),
        { max := 4, ending := some .ended }) := by cbv
    rw [serve_of_request hfirst]
    simp only [Handler.echo, Handler.ofFunction, serve_of_error hsecond]
    exact ⟨rfl, rfl, rfl⟩
  obtain ⟨hsent, hhandled, hstatus⟩ := hservice
  obtain ⟨worker, transcript, hstart, -, -, hall⟩ :=
    (serves_transcript .echo () config hs).2 hsetup
  refine ⟨hs, hsetup, worker, hstart, ?_⟩
  have hcomes := (hall [] script worker [] rfl rfl).2.2.2.2
  rwa [hsent, hhandled, hstatus] at hcomes

end Worker

end Parley
