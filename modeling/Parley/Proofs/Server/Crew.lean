import Parley.Proofs.Server.Registry
import Parley.Proofs.Server.Stateless
import Parley.Server.Crew

/-!
# What happens while the workers are at their turns

`Crew.Turn` lists what can happen in a server whose workers are taken turn by turn: a turn of the
server's own threads, a worker that sets its connection up or cannot, and a deed at a connection in
service, which `Post.Turn` takes apart. The registry stays exact throughout
(`Crew.registered_turn`).

What happens elsewhere passes a connection by: neither the connection nor its worker has changed
afterwards (`Crew.passed_turn`).
-/

namespace Parley

open Transport (Intake)

variable {σ : Type}

/-- The most bytes that the socket takes in a move. -/
def Worker.Move.size : Worker.Move → Nat
  | push n => n
  | arrive _ | pump | owner => 0

theorem Worker.length_step_le {worker worker' : Worker σ} {move : Worker.Move} {bytes : List UInt8}
    (h : worker.step move = some (worker', bytes)) : bytes.length ≤ move.size := by
  cases move with
  | arrive | pump | owner =>
    obtain ⟨_, -, heq⟩ := Option.map_eq_some_iff.mp h
    cases heq
    exact Nat.zero_le _
  | push n =>
    simp only [step, push] at h
    split at h
    · cases h; exact Nat.zero_le _
    · split at h
      · cases h
      · cases h; exact List.length_take_le _ _
    · cases h

namespace Server

namespace Post

variable {post post' : Post σ} {shut : Bool} {room : Option (Nat × Failure)} {deed : Deed}
  {bytes : List UInt8}

/-- What can happen at a connection in service: a move of the worker that the socket has room for,
a read that finds the socket shut down, or a write that the socket refuses. -/
inductive Turn (post : Post σ) (shut : Bool) (room : Option (Nat × Failure)) :
    Deed → Post σ → List UInt8 → Prop
  | moves {deed : Deed} {move : Worker.Move} {worker : Worker σ} {script : Arrivals}
      {bytes : List UInt8} (hscript : post.script = Worker.Move.arrivals [move] ++ script)
      (hstep : post.worker.step move = some (worker, bytes))
      (hawake : deed.awake post.worker = true → post.worker.awake move = true)
      (hroom : ∀ limit failure, room = some (limit, failure) → bytes.length ≤ limit) :
    Turn post shut room deed ⟨worker, script⟩ bytes
  | ends {intake : Intake} (hshut : (shut || post.worker.intake.shut) = true)
      (harrive : post.worker.intake.arrive (.ok []) = some intake) :
    Turn post shut room .readEnd ⟨{ post.worker with intake }, post.script⟩ []
  | refused {left : List UInt8} {n : Nat} {failure : Failure}
      (hs : post.worker.serving = .writing left) (hne : left ≠ [])
      (hroom : room = some (0, failure)) :
    Turn post shut room (.push n)
      ⟨post.worker.quit (.dropped (.frame (.failed failure))), post.script⟩ []

theorem turn_of_move {move : Worker.Move} (h : post.move move = some (post', bytes))
    (harrivals : Worker.Move.arrivals [move] = [])
    (hawake : deed.awake post.worker = true → post.worker.awake move = true)
    (hroom : ∀ limit failure, room = some (limit, failure) → move.size ≤ limit) :
    post.Turn shut room deed post' bytes := by
  obtain ⟨⟨worker, bytes⟩, hstep, heq⟩ := Option.map_eq_some_iff.mp h
  cases heq
  have hlength := Worker.length_step_le hstep
  refine .moves ?_ hstep hawake fun limit failure heq =>
    Nat.le_trans hlength (hroom limit failure heq)
  rw [harrivals, List.nil_append]

/-- **What happens at a connection in service is one of these.** -/
theorem turn_of_step (h : post.step shut room deed = some (post', bytes)) :
    post.Turn shut room deed post' bytes := by
  cases deed with
  | begin => cases h
  | read =>
    obtain ⟨worker, script⟩ := post
    cases script with
    | nil => cases h
    | cons arrival script =>
      obtain ⟨⟨worker', bytes⟩, hstep, heq⟩ := Option.map_eq_some_iff.mp h
      cases heq
      have hlength := Worker.length_step_le hstep
      exact .moves rfl hstep (fun _ => rfl) fun limit _ _ =>
        Nat.le_trans hlength (Nat.zero_le limit)
  | readEnd =>
    simp only [step] at h
    split at h
    · next hshut =>
      obtain ⟨⟨worker', bytes⟩, hstep, heq⟩ := Option.map_eq_some_iff.mp h
      cases heq
      obtain ⟨intake, harrive, heq⟩ := Option.map_eq_some_iff.mp hstep
      cases heq
      exact .ends hshut harrive
    · cases h
  | pump => exact turn_of_move h rfl id fun _ _ _ => Nat.zero_le _
  | owner => exact turn_of_move h rfl id fun _ _ _ => Nat.zero_le _
  | push n =>
    simp only [step, push] at h
    split at h
    · next failure byte more hs =>
      obtain ⟨worker, hb, heq⟩ := Option.map_eq_some_iff.mp h
      cases heq
      rw [Worker.breakOff, hs] at hb
      cases hb
      exact .refused hs (List.cons_ne_nil _ _) rfl
    · refine turn_of_move h rfl (fun _ => rfl) fun limit failure heq => ?_
      cases heq
      exact Nat.min_le_right _ _
    · exact turn_of_move h rfl (fun _ => rfl) nofun

end Post

namespace Crew

variable {crew next : Crew σ} {move : Move}

/-- What can happen in a server whose workers are taken turn by turn. -/
inductive Turn (crew : Crew σ) : Move → Crew σ → Prop
  | turns {move : Server.Move} {threads : Threads σ} (hspares : crew.spares move = true)
      (ht : crew.threads.Turn move threads) : Turn crew (.turn move) { crew with threads }
  | opens {id : Nat} {link : Link} {worker : Worker σ}
      (hlink : crew.threads.links[id]? = some link) (hstage : link.stage = .serving)
      (hpost : crew.posts id = none) (hopening : (crew.peers id).opening = none)
      (hworker : Worker.ofConfig? crew.threads.handler crew.threads.state crew.threads.config =
        some worker) :
    Turn crew (.work id .begin) (crew.setPost id ⟨worker, (crew.peers id).script⟩)
  | fails {id : Nat} {link : Link} {failure : Failure}
      (hlink : crew.threads.links[id]? = some link) (hstage : link.stage = .serving)
      (hpost : crew.posts id = none) (hopening : (crew.peers id).opening = some failure) :
    Turn crew (.work id .begin) { crew with
      threads := crew.threads.setLink id
        { link with stage := .leaving (.dropped (.failed failure)) } }
  | works {id : Nat} {deed : Deed} {link : Link} {post post' : Post σ} {bytes : List UInt8}
      (hlink : crew.threads.links[id]? = some link) (hstage : link.stage = .serving)
      (hpost : crew.posts id = some post)
      (ht : (post.resume crew.threads.state).Turn link.shut (link.room (crew.peers id)) deed post'
        bytes) :
    Turn crew (.work id deed) { crew.setPost id post' with
      threads := { crew.threads.setLink id (link.follow post'.worker bytes) with
        state := post'.worker.state } }

/-- **What happens is one of these.** -/
theorem turn_of_step (h : crew.step move = some next) : crew.Turn move next := by
  cases move with
  | turn move =>
    simp only [step] at h
    split at h
    · next hspares =>
      obtain ⟨threads, hstep, rfl⟩ := Option.map_eq_some_iff.mp h
      exact .turns hspares (Threads.turn_of_step hstep)
    · cases h
  | work id deed =>
    obtain ⟨link, hlink, h⟩ := Option.bind_eq_some_iff.mp h
    split at h
    · next hstage =>
      cases hpost : crew.posts id with
      | none =>
        simp only [hpost] at h
        cases deed with
        | begin =>
          cases hopening : (crew.peers id).opening with
          | some failure =>
            simp only [begin, hopening] at h
            cases h
            exact .fails hlink hstage hpost hopening
          | none =>
            simp only [begin, hopening] at h
            obtain ⟨worker, hworker, rfl⟩ := Option.map_eq_some_iff.mp h
            exact .opens hlink hstage hpost hopening hworker
        | read | readEnd | pump | owner | push => cases h
      | some post =>
        simp only [hpost] at h
        obtain ⟨⟨post', bytes⟩, hstep, h⟩ := Option.bind_eq_some_iff.mp h
        cases h
        exact .works hlink hstage hpost (Post.turn_of_step hstep)
    · cases h

theorem run_turn {P : Crew σ → Prop} {Q : Move → Prop}
    (hturn : ∀ {crew move next}, P crew → Q move → crew.Turn move next → P next)
    {moves : List Move} (hp : P crew) (hq : ∀ move ∈ moves, Q move)
    (h : crew.run moves = some next) : P next := by
  induction moves generalizing crew with
  | nil => cases h; exact hp
  | cons move rest ih =>
    obtain ⟨mid, hstep, hrest⟩ := Option.bind_eq_some_iff.mp h
    have hmid := hturn hp (hq move List.mem_cons_self) (turn_of_step hstep)
    exact ih hmid (fun move hm => hq move (List.mem_cons_of_mem _ hm)) hrest

end Crew

/-! ## The registry -/

theorem Link.follow_stage (link : Link) (worker : Worker σ) (bytes : List UInt8) :
    (∃ status, worker.serving = .done status ∧
        (link.follow worker bytes).stage = .leaving status) ∨
      (∀ status, worker.serving ≠ .done status) ∧ (link.follow worker bytes).stage = .serving := by
  simp only [follow]
  cases worker.serving with
  | done status => exact .inl ⟨status, rfl, rfl⟩
  | reading | writing | leaving => exact .inr ⟨nofun, rfl⟩

theorem Link.Stands.serves {registry : List Nat} {acceptor : Acceptor} {id : Nat}
    {link link' : Link} (h : link.Stands registry acceptor id) (hs : link.stage = .serving)
    (hs' : link'.stage = .serving ∨ ∃ status, link'.stage = .leaving status)
    (hshut : link'.shut = link.shut) (hreceiver : link'.receiver = link.receiver) :
    link'.Stands registry acceptor id := by
  have hbusy : ¬link'.stage.IsIdle ∧ link'.stage.IsRegistered := by
    rcases hs' with heq | ⟨status, heq⟩
    · rw [heq]
      exact ⟨not_false, trivial⟩
    · rw [heq]
      exact ⟨not_false, trivial⟩
  refine h.works (by simp [hs, Stage.IsIdle]) hbusy.1 ?_ (hshut ▸ hreceiver ▸ h.shut)
  exact iff_of_true (h.registered.mpr (by rw [hs]; trivial)) hbusy.2

/-- The accept loop has the connection in hand. -/
def Acceptor.Holds (acceptor : Acceptor) (id : Nat) : Prop :=
  acceptor = .admitting id ∨ acceptor = .starting id

namespace Crew

variable {crew next : Crew σ} {move : Move} {id : Nat} {link : Link}

theorem posts_setPost_self (crew : Crew σ) (id : Nat) (post : Post σ) :
    (crew.setPost id post).posts id = some post :=
  if_pos rfl

theorem posts_setPost_of_ne (crew : Crew σ) {id other : Nat} (h : other ≠ id) (post : Post σ) :
    (crew.setPost id post).posts other = crew.posts other :=
  if_neg h

/-- The registry of the server is exact. -/
def Registered (crew : Crew σ) : Prop :=
  Threads.Registered crew.threads.links crew.threads.registry crew.threads.acceptor

/-- **Every turn keeps the registry exact.** -/
theorem Registered.turn (h : crew.Registered) (ht : crew.Turn move next) : next.Registered := by
  cases ht with
  | turns _ ht => exact Threads.Registered.turn h ht
  | opens => exact h
  | fails hlink hstage =>
    exact h.replace hlink fun hstands => hstands.serves hstage (.inr ⟨_, rfl⟩) rfl rfl
  | @works id deed link post post' bytes hlink hstage =>
    refine h.replace hlink fun hstands => hstands.serves hstage ?_ rfl rfl
    rcases link.follow_stage post'.worker bytes with ⟨status, -, heq⟩ | ⟨-, heq⟩
    · exact .inr ⟨status, heq⟩
    · exact .inl heq

/-! ## One connection among the others -/

/-- The move is about the connection. To stop the server is about them all. -/
def Concerns (crew : Crew σ) (id : Nat) : Move → Prop
  | .work other _ | .turn (.worker other) | .turn (.workerFails other _ _)
  | .turn (.arrive other _) => other = id
  | .turn .acceptor | .turn .acceptorFails => crew.threads.acceptor.Holds id
  | .turn .stop => True
  | .turn .connect | .turn (.wake _) | .turn .stopped => False

/-- **What is not about a connection leaves it and its worker as they are.** -/
theorem passed_turn (ht : crew.Turn move next) (hm : ¬crew.Concerns id move)
    (hlink : crew.threads.links[id]? = some link) :
    next.threads.links[id]? = some link ∧ next.posts id = crew.posts id := by
  have hset : ∀ {other : Nat} (link' : Link), other ≠ id →
      (crew.threads.links.set other link')[id]? = some link := by
    intro other link' hne
    rw [List.getElem?_set_ne hne]
    exact hlink
  cases ht with
  | @turns move threads _ ht =>
    refine ⟨?_, rfl⟩
    cases ht with
    | connects | keeps | joins | acceptFails | wakes | detaches | returns => exact hlink
    | accepts =>
      rw [List.getElem?_append_left (List.getElem?_eq_some_iff.mp hlink).1]
      exact hlink
    | turnsAway ha | registers ha | copyFails ha =>
      exact hset _ fun heq => hm (.inl (heq ▸ ha))
    | starts ha | startFails ha => exact hset _ fun heq => hm (.inr (heq ▸ ha))
    | arrives | serves | breaks | leaves | exits => exact hset _ hm
    | stops => exact absurd trivial hm
  | opens => exact ⟨hlink, crew.posts_setPost_of_ne (Ne.symm hm) _⟩
  | fails => exact ⟨hset _ hm, rfl⟩
  | works => exact ⟨hset _ hm, crew.posts_setPost_of_ne (Ne.symm hm) _⟩

/-- What a move that is about a connection makes of it and of its worker. -/
inductive Stride (crew : Crew σ) (id : Nat) (link : Link) : Move → Link → Option (Post σ) → Prop
  | registers (hs : link.stage = .accepted) :
    Stride crew id link (.turn .acceptor) { link with stage := .registered } (crew.posts id)
  | starts (hs : link.stage = .registered) :
    Stride crew id link (.turn .acceptor) (link.start crew.threads.config) (crew.posts id)
  | givesUp (hs : link.stage.IsIdle) :
    Stride crew id link (.turn .acceptorFails) { link with stage := .turnedAway } (crew.posts id)
  | opens {worker : Worker σ} (hs : link.stage = .serving) (hpost : crew.posts id = none)
      (hopening : (crew.peers id).opening = none)
      (hworker : Worker.ofConfig? crew.threads.handler crew.threads.state crew.threads.config =
        some worker) :
    Stride crew id link (.work id .begin) link (some ⟨worker, (crew.peers id).script⟩)
  | fails {failure : Failure} (hs : link.stage = .serving) (hpost : crew.posts id = none)
      (hopening : (crew.peers id).opening = some failure) :
    Stride crew id link (.work id .begin)
      { link with stage := .leaving (.dropped (.failed failure)) } (crew.posts id)
  | works {deed : Deed} {post post' : Post σ} {bytes : List UInt8} (hs : link.stage = .serving)
      (hpost : crew.posts id = some post)
      (ht : (post.resume crew.threads.state).Turn link.shut (link.room (crew.peers id)) deed post'
        bytes) :
    Stride crew id link (.work id deed) (link.follow post'.worker bytes) (some post')
  | leaves {status : ServiceStatus} (hs : link.stage = .leaving status) :
    Stride crew id link (.turn (.worker id)) { link with stage := .exiting status } (crew.posts id)
  | exits {status : ServiceStatus} (hs : link.stage = .exiting status) :
    Stride crew id link (.turn (.worker id)) { link with stage := .finished status } (crew.posts id)

/-- **A move that is about a connection** makes one of these of it, as long as the server runs. -/
theorem stride_of_turn (hr : crew.Registered) (hrunning : crew.threads.stopping = false)
    (ht : crew.Turn move next) (hm : crew.Concerns id move) (hstop : move ≠ .turn .stop)
    (hlink : crew.threads.links[id]? = some link) :
    ∃ link', next.threads.links[id]? = some link' ∧
      crew.Stride id link move link' (next.posts id) := by
  have hstands := hr.stands id link hlink
  have hset : ∀ link', (crew.threads.links.set id link')[id]? = some link' := fun link' =>
    List.getElem?_set_self (List.getElem?_eq_some_iff.mp hlink).1
  cases ht with
  | @turns move threads hspares ht =>
    cases ht with
    | connects | wakes | detaches | returns => exact hm.elim
    | accepts _ ha | keeps ha | joins ha | acceptFails ha =>
      rcases hm with hm | hm
      · cases ha.symm.trans hm
      · cases ha.symm.trans hm
    | turnsAway _ hstopping => cases hrunning.symm.trans hstopping
    | registers ha _ hother =>
      rcases hm with hm | hm
      · cases ha.symm.trans hm
        cases hlink.symm.trans hother
        exact ⟨_, hset _, .registers (hstands.admitting.mpr ha)⟩
      · cases ha.symm.trans hm
    | starts ha hother =>
      rcases hm with hm | hm
      · cases ha.symm.trans hm
      · cases ha.symm.trans hm
        cases hlink.symm.trans hother
        exact ⟨_, hset _, .starts (hstands.starting.mpr ha)⟩
    | copyFails ha hother =>
      rcases hm with hm | hm
      · cases ha.symm.trans hm
        cases hlink.symm.trans hother
        refine ⟨_, hset _, .givesUp ?_⟩
        rw [hstands.admitting.mpr ha]
        trivial
      · cases ha.symm.trans hm
    | startFails ha hother =>
      rcases hm with hm | hm
      · cases ha.symm.trans hm
      · cases ha.symm.trans hm
        cases hlink.symm.trans hother
        refine ⟨_, hset _, .givesUp ?_⟩
        rw [hstands.starting.mpr ha]
        trivial
    | arrives | breaks => cases hspares
    | serves hother hstage =>
      simp [spares, hother, hstage] at hspares
    | leaves hother hstage =>
      obtain rfl := hm
      cases hlink.symm.trans hother
      exact ⟨_, hset _, .leaves hstage⟩
    | exits hother hstage =>
      obtain rfl := hm
      cases hlink.symm.trans hother
      exact ⟨_, hset _, .exits hstage⟩
    | stops => exact absurd rfl hstop
  | opens hother hstage hpost hopening hworker =>
    obtain rfl := hm
    cases hlink.symm.trans hother
    refine ⟨_, hlink, ?_⟩
    rw [posts_setPost_self]
    exact .opens hstage hpost hopening hworker
  | fails hother hstage hpost hopening =>
    obtain rfl := hm
    cases hlink.symm.trans hother
    exact ⟨_, hset _, .fails hstage hpost hopening⟩
  | works hother hstage hpost ht =>
    obtain rfl := hm
    cases hlink.symm.trans hother
    refine ⟨_, hset _, ?_⟩
    show Stride _ _ _ _ _ ((crew.setPost _ _).posts _)
    rw [posts_setPost_self]
    exact .works hstage hpost ht

end Crew

end Server

end Parley
