import Mathlib.Logic.Relation
import Parley.Proofs.Inevitable
import Parley.Proofs.Server.Fate

/-!
# No connection is held up by others

A connection advances (`Crew.Advances`) when one of its own threads takes a turn for which it does
not wait, or when the accept loop takes the turn that it has the connection in hand for. Whatever
happens elsewhere may happen before that.

**Theorem (`Crew.Kept.inevitable`).** Every connection that the server does not turn away comes to
its fate, as long as it advances.

The accept loop waits for nobody once it has a connection in hand, and neither does a worker that
exits. In between the connection follows its worker turn for turn, so that it comes to what the
worker inevitably comes to by itself (`Worker.Served.inevitable`), unless a write is refused.
-/

namespace Parley

variable {σ : Type}

theorem Worker.Advances.of_leaving {course next : Worker.Course σ}
    (h : Worker.Advances course next) {status : ServiceStatus}
    (hs : course.worker.serving = .leaving status) :
    next.worker.serving = .leaving status ∨ next.worker.serving = .done status := by
  cases h with
  | shut => exact .inl hs
  | @move worker worker' script written bytes move _ hstep =>
    cases move with
    | arrive | pump =>
      obtain ⟨intake, -, heq⟩ := Option.map_eq_some_iff.mp hstep
      cases heq
      exact .inl hs
    | owner =>
      obtain ⟨next, hturn, heq⟩ := Option.map_eq_some_iff.mp hstep
      cases heq
      rw [Worker.turn_eq] at hturn
      obtain ⟨⟨intake, report⟩, -, rfl⟩ := Option.map_eq_some_iff.mp hturn
      exact Worker.serving_hear { worker with intake } hs report
    | push n =>
      have hleaving : worker.serving = .leaving status := hs
      simp [Worker.step, Worker.push, hleaving] at hstep

namespace Server

namespace Post

theorem exists_push (post : Post σ) {left : List UInt8} (hs : post.worker.serving = .writing left)
    (room : Option (Nat × Failure)) : ∃ next, post.push room 1 = some next := by
  match left, room with
  | [], none | [], some (0, _) | [], some (_ + 1, _) | _ :: _, none | _ :: _, some (0, _)
  | _ :: _, some (_ + 1, _) =>
    simp [push, move, hs, Worker.breakOff, Worker.step, Worker.push]

theorem exists_move (post : Post σ) {move : Worker.Move} {next : Worker σ × List UInt8}
    (h : post.worker.step move = some next) : ∃ next, post.move move = some next :=
  ⟨_, by rw [Post.move, h]; rfl⟩

theorem exists_step (post : Post σ) {next : Worker σ × List UInt8} {move : Worker.Move}
    {script : Arrivals} (hscript : post.script = Worker.Move.arrivals [move] ++ script)
    (hawake : post.worker.awake move = true) (h : post.worker.step move = some next)
    (shut : Bool) (room : Option (Nat × Failure)) :
    ∃ deed next, deed.awake post.worker = true ∧ post.step shut room deed = some next := by
  obtain ⟨worker, _⟩ := post
  cases hscript
  cases move with
  | arrive arrival =>
    obtain ⟨next, hmove⟩ := exists_move ⟨worker, script⟩ h
    exact ⟨.read, next, rfl, hmove⟩
  | pump =>
    obtain ⟨next, hmove⟩ := exists_move ⟨worker, script⟩ h
    exact ⟨.pump, next, hawake, hmove⟩
  | owner =>
    obtain ⟨next, hmove⟩ := exists_move ⟨worker, script⟩ h
    exact ⟨.owner, next, hawake, hmove⟩
  | push n =>
    have hwriting : ∃ left, worker.serving = .writing left := by
      simp only [Worker.step, Worker.push] at h
      split at h
      · exact ⟨_, by assumption⟩
      · exact ⟨_, by assumption⟩
      · cases h
    obtain ⟨left, hs⟩ := hwriting
    obtain ⟨next, hpush⟩ := exists_push ⟨worker, script⟩ hs room
    exact ⟨.push 1, next, rfl, hpush⟩

end Post

/-- Whether a thread waits does not depend on what the handler keeps. -/
theorem Deed.awake_exchange (deed : Deed) (worker : Worker σ) (state : σ) :
    deed.awake { worker with state } = deed.awake worker := by
  cases deed <;> rfl

/-- Where a connection stands at last. -/
def Stage.last : ServiceStatus → Stage
  | .waiting => .serving
  | .closed => .finished .closed
  | .dropped error => .finished (.dropped error)
  | .crashed => .finished .crashed

theorem Stage.last_of_ne {status : ServiceStatus} (h : status ≠ .waiting) :
    last status = finished status := by
  cases status with
  | waiting => exact absurd rfl h
  | closed | dropped | crashed => rfl

namespace Crew

variable {config : Config} {reply : Message → Reply} {peers : Nat → Peer} {crew next : Crew σ}
  {id : Nat} {link : Link}

/-! ## Steps -/

/-- Something happens that is not about the connection. -/
def Passes (id : Nat) (crew next : Crew σ) : Prop :=
  ∃ move, ¬crew.Concerns id move ∧ crew.step move = some next

/-- The move is the connection's own: a turn of one of its threads that does not wait, or one of
the accept loop for it. -/
def Own (crew : Crew σ) (id : Nat) : Move → Prop
  | .work other deed =>
    other = id ∧ ∀ post, crew.posts id = some post → deed.awake post.worker = true
  | .turn (.worker other) => other = id
  | .turn .acceptor => crew.threads.acceptor.Holds id
  | .turn _ => False

/-- The connection's own move, after whatever happened elsewhere. -/
inductive Advances (id : Nat) (crew next : Crew σ) : Prop
  | intro {mid : Crew σ} {move : Move} (hpass : Relation.ReflTransGen (Passes id) crew mid)
      (hown : mid.Own id move) (hstep : mid.step move = some next)

/-- The connection has come to its fate. -/
def Comes (id : Nat) (fate : Fate) (crew : Crew σ) : Prop :=
  ∃ link, crew.threads.links[id]? = some link ∧ link.sent = fate.sent ∧
    link.stage = .last fate.status

theorem Own.concerns {move : Move} (h : crew.Own id move) :
    crew.Concerns id move ∧ move ≠ .turn .stop := by
  cases move with
  | work other deed => exact ⟨h.1, nofun⟩
  | turn move =>
    cases move with
    | worker other | acceptor => exact ⟨h, nofun⟩
    | connect | acceptorFails | arrive | workerFails | stop | wake | stopped => exact h.elim

/-- What happens elsewhere leaves the connection as it is. -/
theorem Kept.pass (h : Kept config reply peers crew) {mid : Crew σ}
    (hp : Relation.ReflTransGen (Passes id) crew mid)
    (hlink : crew.threads.links[id]? = some link) :
    Kept config reply peers mid ∧ mid.threads.links[id]? = some link ∧
      mid.posts id = crew.posts id := by
  induction hp with
  | refl => exact ⟨h, hlink, rfl⟩
  | tail _ hpass ih =>
    obtain ⟨hkept, hlink, hpost⟩ := ih
    obtain ⟨move, hm, hstep⟩ := hpass
    have hstop : move ≠ .turn .stop := by
      rintro rfl
      exact hm trivial
    have ht := turn_of_step hstep
    obtain ⟨hlink', hpost'⟩ := passed_turn ht hm hlink
    exact ⟨hkept.turn hstop ht, hlink', hpost'.trans hpost⟩

/-- **A connection that advances makes a stride.** -/
theorem Kept.advance (h : Kept config reply peers crew)
    (hlink : crew.threads.links[id]? = some link) (ha : crew.Advances id next) :
    Kept config reply peers next ∧ ∃ mid move link' post, Kept config reply peers mid ∧
      mid.posts id = crew.posts id ∧ mid.Own id move ∧ next.threads.links[id]? = some link' ∧
      next.posts id = post ∧ mid.Stride id link move link' post := by
  obtain ⟨hpass, hown, hstep⟩ := ha
  obtain ⟨hkept, hlink', hpost⟩ := h.pass hpass hlink
  obtain ⟨hm, hstop⟩ := hown.concerns
  have ht := turn_of_step hstep
  obtain ⟨link', hnext, hstride⟩ := stride_of_turn hkept.registered hkept.running ht hm hstop hlink'
  exact ⟨hkept.turn hstop ht, _, _, _, _, hkept, hpost, hown, hnext, rfl, hstride⟩

theorem advances_of_step {move : Move} (hown : crew.Own id move)
    (hstep : crew.step move = some next) : crew.Advances id next :=
  .intro .refl hown hstep

/-! ## Behind the service -/

theorem Kept.comes_of_finished (h : Kept config reply peers crew) {status : ServiceStatus}
    (hlink : crew.threads.links[id]? = some link) (hs : link.stage = .finished status) :
    crew.Comes id ((peers id).fate config reply) := by
  obtain ⟨hfate, hended⟩ := (h.tracks id link hlink).1.of_status? (by rw [hs]; rfl)
  refine ⟨link, hlink, ?_, ?_⟩
  · rw [hfate]
  · rw [hfate, hs, Stage.last_of_ne hended]

/-- A worker behind its service waits for nobody. -/
theorem exists_advance_of_leaving {status : ServiceStatus}
    (hlink : crew.threads.links[id]? = some link)
    (hs : link.stage = .leaving status ∨ link.stage = .exiting status) :
    ∃ next, crew.Advances id next := by
  have hstep : ∃ next, crew.step (.turn (.worker id)) = some next := by
    rcases hs with hs | hs
    · simp [step, spares, hlink, hs, Threads.step, Threads.workerTurn]
    · simp [step, spares, hlink, hs, Threads.step, Threads.workerTurn]
  obtain ⟨next, hstep⟩ := hstep
  have hown : crew.Own id (.turn (.worker id)) := rfl
  exact ⟨next, advances_of_step hown hstep⟩

theorem Kept.inevitable_of_exiting (h : Kept config reply peers crew) {status : ServiceStatus}
    (hlink : crew.threads.links[id]? = some link) (hs : link.stage = .exiting status) :
    Inevitable (Advances id) (Comes id ((peers id).fate config reply)) crew := by
  refine .later (exists_advance_of_leaving hlink (.inr hs)) fun next ha => .now ?_
  obtain ⟨hkept, mid, move, link', post, -, -, -, hlink', -, hstride⟩ := h.advance hlink ha
  cases hstride with
  | exits => exact hkept.comes_of_finished hlink' rfl
  | givesUp hs' => rw [hs] at hs'; cases hs'
  | registers hs' | starts hs' | opens hs' | fails hs' | works hs' | leaves hs' =>
    cases hs.symm.trans hs'

theorem Kept.inevitable_of_leaving (h : Kept config reply peers crew) {status : ServiceStatus}
    (hlink : crew.threads.links[id]? = some link) (hs : link.stage = .leaving status) :
    Inevitable (Advances id) (Comes id ((peers id).fate config reply)) crew := by
  refine .later (exists_advance_of_leaving hlink (.inl hs)) fun next ha => ?_
  obtain ⟨hkept, mid, move, link', post, -, -, -, hlink', -, hstride⟩ := h.advance hlink ha
  cases hstride with
  | leaves => exact hkept.inevitable_of_exiting hlink' rfl
  | givesUp hs' => rw [hs] at hs'; cases hs'
  | registers hs' | starts hs' | opens hs' | fails hs' | works hs' | exits hs' =>
    cases hs.symm.trans hs'

theorem Kept.inevitable_of_status? (h : Kept config reply peers crew) {status : ServiceStatus}
    (hlink : crew.threads.links[id]? = some link) (hs : link.stage.status? = some status) :
    Inevitable (Advances id) (Comes id ((peers id).fate config reply)) crew := by
  cases hstage : link.stage with
  | leaving => exact h.inevitable_of_leaving hlink hstage
  | exiting => exact h.inevitable_of_exiting hlink hstage
  | finished => exact .now (h.comes_of_finished hlink hstage)
  | accepted | registered | serving | turnedAway => rw [hstage] at hs; cases hs

/-! ## In service -/

/-- The connection is in service, and its worker stands in this course, except for what the handler
keeps. -/
def InService (crew : Crew σ) (id : Nat) (course : Worker.Course σ) : Prop :=
  ∃ link post state, crew.threads.links[id]? = some link ∧ link.stage = .serving ∧
    crew.posts id = some post ∧ course = ⟨{ post.worker with state }, post.script, link.sent⟩

variable {course : Worker.Course σ}

theorem Kept.inService (h : Kept config reply peers crew) {post : Post σ}
    (hlink : crew.threads.links[id]? = some link) (hs : link.stage = .serving)
    (hpost : crew.posts id = some post) :
    (∀ status, post.worker.serving ≠ .done status) ∧
      post.Bound config reply (peers id) link.sent := by
  rcases (h.tracks id link hlink).1.of_serving hs with ⟨hnone, -⟩ | ⟨_, hsome, hbusy, hbound⟩
  · cases hpost.symm.trans hnone
  · cases hpost.symm.trans hsome
    exact ⟨hbusy, hbound⟩

theorem exists_advance {post : Post σ} {deed : Deed} {result : Post σ × List UInt8}
    (hlink : crew.threads.links[id]? = some link) (hs : link.stage = .serving)
    (hpost : crew.posts id = some post) (hawake : deed.awake post.worker = true)
    (hstep : (post.resume crew.threads.state).step link.shut (link.room (crew.peers id)) deed =
      some result) : ∃ next, crew.Advances id next := by
  have hown : crew.Own id (.work id deed) := by
    refine ⟨rfl, fun post' hpost' => ?_⟩
    cases hpost.symm.trans hpost'
    exact hawake
  have hnext : ∃ next, crew.step (.work id deed) = some next := by
    simp [step, work, hlink, hs, hpost, hstep]
  obtain ⟨next, hnext⟩ := hnext
  exact ⟨next, advances_of_step hown hnext⟩

/-- **A connection in service can advance** as its worker can. -/
theorem Kept.leads (h : Kept config reply peers crew) (hin : crew.InService id course)
    (ha : ∃ next, Worker.Advances course next) : ∃ next, crew.Advances id next := by
  obtain ⟨link, ⟨worker, script⟩, state, hlink, hs, hpost, rfl⟩ := hin
  have hcomputes := (h.inService hlink hs hpost).2.computes
  obtain ⟨next, ha⟩ := ha
  generalize hcourse : (⟨{ worker with state }, script, link.sent⟩ : Worker.Course σ) = course at ha
  cases ha with
  | @move _ worker' script written bytes move hawake hstep =>
    cases hcourse
    obtain ⟨state', hstep⟩ :=
      (Worker.exchange_step { worker with state } hcomputes hstep).2 crew.threads.state
    obtain ⟨deed, result, hawake, hstep⟩ :=
      Post.exists_step (Post.resume ⟨worker, _⟩ crew.threads.state) rfl hawake hstep
        link.shut (link.room (crew.peers id))
    exact exists_advance hlink hs hpost (deed.awake_exchange worker _ ▸ hawake) hstep
  | @shut _ intake script written hshut harrive =>
    cases hcourse
    have hend : (Post.resume ⟨worker, script⟩ crew.threads.state).step link.shut
        (link.room (crew.peers id)) .readEnd =
        some (⟨{ worker with state := crew.threads.state, intake }, script⟩, []) := by
      have hshut : worker.intake.shut = true := hshut
      have harrive : worker.intake.arrive (.ok []) = some intake := harrive
      simp [Post.step, Post.resume, Post.move, Worker.step, hshut, harrive]
    exact exists_advance hlink hs hpost rfl hend

/-- **A connection in service follows its worker**, is refused a write, or leaves the service. -/
theorem Kept.follows (h : Kept config reply peers crew) (hin : crew.InService id course)
    (ha : crew.Advances id next) :
    Kept config reply peers next ∧
      ((∃ course', next.InService id course' ∧ (Worker.Advances course course' ∨
          (∃ left, course.worker.serving = .writing left) ∧
            ∃ status, course'.worker.serving = .leaving status)) ∨
        ∃ link status, next.threads.links[id]? = some link ∧
          link.stage.status? = some status) := by
  obtain ⟨link, ⟨worker, script⟩, state, hlink, hs, hpost, rfl⟩ := hin
  have hcomputes := (h.inService hlink hs hpost).2.computes
  obtain ⟨hkept, mid, move, link', post', hmid, hpost', hown, hlink', hnext, hstride⟩ :=
    h.advance hlink ha
  have hpost' : mid.posts id = some ⟨worker, script⟩ := hpost'.trans hpost
  refine ⟨hkept, ?_⟩
  cases hstride with
  | registers hs' | starts hs' | leaves hs' | exits hs' => cases hs.symm.trans hs'
  | givesUp hs' => rw [hs] at hs'; cases hs'
  | opens _ hnone | fails _ hnone => cases hpost'.symm.trans hnone
  | @works deed _ post' bytes _ hpost'' ht =>
    cases hpost'.symm.trans hpost''
    rcases link.follow_stage post'.worker bytes with ⟨status, -, hstage⟩ | ⟨-, hstage⟩
    · exact .inr ⟨_, status, hlink', by rw [hstage]; rfl⟩
    · refine .inl ?_
      cases ht with
      | @moves _ move worker' script' bytes hscript hstep hawake =>
        cases hscript
        obtain ⟨state', hstep⟩ :=
          (Worker.exchange_step { worker with state := mid.threads.state } hcomputes hstep).2 state
        refine ⟨⟨{ worker' with state := state' }, script', link.sent ++ bytes⟩,
          ⟨_, _, state', hlink', hstage, hnext, rfl⟩, .inl (.move ?_ hstep)⟩
        exact hawake ((deed.awake_exchange worker _).trans (hown.2 _ hpost'))
      | @ends intake hshut harrive =>
        refine ⟨⟨{ worker with state, intake }, script, link.sent ++ []⟩,
          ⟨_, _, state, hlink', hstage, hnext, rfl⟩, .inl ?_⟩
        rw [List.append_nil]
        have hshut' := (h.tracks id link hlink).2
        rw [hshut'] at hshut
        exact .shut hshut harrive
      | refused hs =>
        exact ⟨_, ⟨_, _, state, hlink', hstage, hnext, rfl⟩, .inr ⟨⟨_, hs⟩, _, rfl⟩⟩

theorem Kept.inevitable_of_quit (h : Kept config reply peers crew)
    (hin : crew.InService id course) {status : ServiceStatus}
    (hs : course.worker.serving = .leaving status) :
    Inevitable (Advances id) (Comes id ((peers id).fate config reply)) crew := by
  have hserved : ∃ prospect, Worker.Served config.bufferCapacity prospect course := by
    obtain ⟨link, post, state, hlink, hstage, hpost, rfl⟩ := hin
    have hbound := (h.inService hlink hstage hpost).2
    rcases (hbound.resume state).way with ⟨hserved, -⟩ | ⟨_, _, hoff⟩
    · exact ⟨_, hserved⟩
    · exact ⟨_, .inr hoff⟩
  obtain ⟨prospect, hserved⟩ := hserved
  refine hserved.inevitable.lift (fun course crew => Kept config reply peers crew ∧
    crew.InService id course ∧ ∃ status, course.worker.serving = .leaving status) ?_ ?_ ?_
    ⟨h, hin, status, hs⟩
  · rintro course crew ⟨-, -, status, hs⟩ hsettled
    have hlast := hs.symm.trans hsettled.serving
    cases hprospect : prospect.status <;> simp [hprospect, Serving.last] at hlast
  · rintro course crew ⟨h, hin, -⟩ hnext
    exact h.leads hin hnext
  · rintro course crew next ⟨h, hin, status, hs⟩ ha
    obtain ⟨hkept, hnext⟩ := h.follows hin ha
    rcases hnext with ⟨course', hin', hadv | ⟨⟨left, hwriting⟩, -⟩⟩ | ⟨_, _, hlink, hover⟩
    · refine .inl ⟨course', hadv, hkept, hin', status, ?_⟩
      rcases hadv.of_leaving hs with hleaving | hdone
      · exact hleaving
      · obtain ⟨link, post, state, hlink, hstage, hpost, rfl⟩ := hin'
        exact absurd hdone ((hkept.inService hlink hstage hpost).1 status)
    · cases hs.symm.trans hwriting
    · exact .inr (hkept.inevitable_of_status? hlink hover)

/-- A connection whose worker waits for more than its socket brings has come to its fate. -/
theorem Kept.comes_of_settled (h : Kept config reply peers crew) (hin : crew.InService id course)
    (hsettled : Worker.Settled ((peers id).prospect config reply) course) :
    crew.Comes id ((peers id).fate config reply) := by
  obtain ⟨link, post, state, hlink, hstage, hpost, rfl⟩ := hin
  obtain ⟨hbusy, hbound⟩ := h.inService hlink hstage hpost
  have hserving : post.worker.serving = .last _ := hsettled.serving
  have hsent : link.sent = ((peers id).prospect config reply).sent := hsettled.sent
  have hwaiting : ((peers id).prospect config reply).status = .waiting := by
    by_contra hended
    exact hbusy _ (hserving.trans (Serving.last_of_ne hended))
  rcases hbound.way with ⟨-, hlimit⟩ | ⟨_, _, hoff⟩
  · rw [(peers id).fate_of_setUp reply hbound.setUp hbound.opening, ← hsent,
      Fate.limited_of_le hlimit, hwaiting]
    exact ⟨link, hlink, rfl, hstage⟩
  · rw [hwaiting] at hserving
    rcases hoff.ends with hends | hends
    · cases hserving.symm.trans hends
    · cases hserving.symm.trans hends

/-- **A connection in service comes to its fate.** -/
theorem Kept.inevitable_of_inService (h : Kept config reply peers crew)
    (hin : crew.InService id course) :
    Inevitable (Advances id) (Comes id ((peers id).fate config reply)) crew := by
  have hservice := hin
  obtain ⟨link, post, state, hlink, hstage, hpost, rfl⟩ := hservice
  obtain ⟨hbusy, hbound⟩ := h.inService hlink hstage hpost
  rcases (hbound.resume state).way with ⟨hserved, -⟩ | ⟨_, _, hoff⟩
  · refine hserved.inevitable.lift (fun course crew => Kept config reply peers crew ∧
      crew.InService id course) ?_ ?_ ?_ ⟨h, hin⟩
    · rintro course crew ⟨h, hin⟩ hsettled
      exact .now (h.comes_of_settled hin hsettled)
    · rintro course crew ⟨h, hin⟩ hnext
      exact h.leads hin hnext
    · rintro course crew next ⟨h, hin⟩ ha
      obtain ⟨hkept, hnext⟩ := h.follows hin ha
      rcases hnext with ⟨course', hin', hadv | ⟨-, status, hs⟩⟩ | ⟨_, _, hlink, hover⟩
      · exact .inl ⟨course', hadv, hkept, hin'⟩
      · exact .inr (hkept.inevitable_of_quit hin' hs)
      · exact .inr (hkept.inevitable_of_status? hlink hover)
  · rcases hoff.ends with hleaving | hdone
    · exact h.inevitable_of_quit hin hleaving
    · exact absurd hdone (hbusy _)

/-! ## Before the service -/

/-- A worker without a post sets its connection up, or finds that it cannot. -/
theorem Kept.inevitable_of_serving (h : Kept config reply peers crew)
    (hlink : crew.threads.links[id]? = some link) (hs : link.stage = .serving) :
    Inevitable (Advances id) (Comes id ((peers id).fate config reply)) crew := by
  rcases (h.tracks id link hlink).1.of_serving hs with ⟨hpost, hsetup, -⟩ | ⟨post, hpost, -⟩
  · have hstep : ∃ next, crew.step (.work id .begin) = some next := by
      obtain ⟨intake, hintake, -⟩ :=
        Worker.exists_start crew.threads.handler crew.threads.state hsetup
      cases hopening : (crew.peers id).opening with
      | some failure => simp [step, work, hlink, hs, hpost, begin, hopening]
      | none =>
        simp [step, work, hlink, hs, hpost, begin, hopening, Worker.ofConfig?, h.settings, hintake]
    obtain ⟨next, hstep⟩ := hstep
    have hown : crew.Own id (.work id .begin) := ⟨rfl, fun _ _ => rfl⟩
    refine .later ⟨next, advances_of_step hown hstep⟩ fun next ha => ?_
    obtain ⟨hkept, mid, move, link', post', -, hmid, -, hlink', hnext, hstride⟩ :=
      h.advance hlink ha
    cases hstride with
    | opens =>
      exact hkept.inevitable_of_inService ⟨link, _, mid.threads.state, hlink', hs, hnext, rfl⟩
    | fails => exact hkept.inevitable_of_leaving hlink' rfl
    | works _ hsome => cases (hmid.trans hpost).symm.trans hsome
    | givesUp hs' => rw [hs] at hs'; cases hs'
    | registers hs' | starts hs' | leaves hs' | exits hs' => cases hs.symm.trans hs'
  · exact h.inevitable_of_inService
      ⟨link, post, post.worker.state, hlink, hs, hpost, rfl⟩

/-- The accept loop waits for nobody once it has a connection in hand. -/
theorem Kept.exists_advance_of_holds (h : Kept config reply peers crew)
    (hlink : crew.threads.links[id]? = some link) (ha : crew.threads.acceptor.Holds id) :
    ∃ next, crew.Advances id next := by
  have hstep : ∃ next, crew.step (.turn .acceptor) = some next := by
    rcases ha with ha | ha
    · simp [step, spares, Threads.step, Threads.acceptorTurn, ha, hlink, h.running]
    · simp [step, spares, Threads.step, Threads.acceptorTurn, ha, hlink]
  obtain ⟨next, hstep⟩ := hstep
  have hown : crew.Own id (.turn .acceptor) := ha
  exact ⟨next, advances_of_step hown hstep⟩

theorem Kept.inevitable_of_registered (h : Kept config reply peers crew)
    (hlink : crew.threads.links[id]? = some link) (hs : link.stage = .registered) :
    Inevitable (Advances id) (Comes id ((peers id).fate config reply)) crew := by
  have ha := (h.registered.stands id link hlink).starting.mp hs
  refine .later (h.exists_advance_of_holds hlink (.inr ha)) fun next ha => ?_
  obtain ⟨hkept, mid, move, link', post', hmid, -, hown, hlink', -, hstride⟩ := h.advance hlink ha
  cases hstride with
  | starts =>
    cases hsetup : Transport.setUp mid.threads.config with
    | ok => exact hkept.inevitable_of_serving hlink' (by simp only [Link.start, hsetup])
    | error error =>
      have hleaving : (link.start mid.threads.config).stage = .leaving (.dropped error) := by
        simp only [Link.start, hsetup]
      exact hkept.inevitable_of_leaving hlink' hleaving
  | givesUp => exact hown.elim
  | registers hs' | opens hs' | fails hs' | works hs' | leaves hs' | exits hs' =>
    cases hs.symm.trans hs'

/-- **A connection that is not turned away comes to its fate.** -/
theorem Kept.inevitable (h : Kept config reply peers crew)
    (hlink : crew.threads.links[id]? = some link) (hs : link.stage ≠ .turnedAway) :
    Inevitable (Advances id) (Comes id ((peers id).fate config reply)) crew := by
  cases hstage : link.stage with
  | turnedAway => exact absurd hstage hs
  | leaving | exiting | finished => exact h.inevitable_of_status? hlink (by rw [hstage]; rfl)
  | serving => exact h.inevitable_of_serving hlink hstage
  | registered => exact h.inevitable_of_registered hlink hstage
  | accepted =>
    have ha := (h.registered.stands id link hlink).admitting.mp hstage
    refine .later (h.exists_advance_of_holds hlink (.inl ha)) fun next ha => ?_
    obtain ⟨hkept, mid, move, link', post', -, -, hown, hlink', -, hstride⟩ := h.advance hlink ha
    cases hstride with
    | registers => exact hkept.inevitable_of_registered hlink' rfl
    | givesUp => exact hown.elim
    | starts hs' | opens hs' | fails hs' | works hs' | leaves hs' | exits hs' =>
      cases hstage.symm.trans hs'

end Crew

end Server

end Parley
