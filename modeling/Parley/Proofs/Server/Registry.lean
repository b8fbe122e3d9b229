import Mathlib.Data.List.Nodup
import Parley.Proofs.Transport.Receiver
import Parley.Server.Threads

/-!
# The registry of a server

`Threads.Turn` lists what one thread can do in one turn, and what the other end of a connection
can. Only the accept loop enters a connection in the registry, and it does so under the lock and
before the worker exists; only that worker takes it out again.

`Registered` is the invariant of every run: the registry names no connection twice, and names
exactly the connections whose stage says so. The accept loop has at most one connection in hand,
which is the one that is not yet in the registry or has no worker yet; nothing has been handled on
a connection without a worker.
-/

namespace Parley.Server

variable {σ : Type}

/-! ## What the threads can do -/

namespace Threads

variable {threads next : Threads σ}

/-- The turns of the threads and of their surroundings. -/
inductive Turn (threads : Threads σ) : Move → Threads σ → Prop
  | connects : Turn threads .connect { threads with backlog := threads.backlog + 1 }
  | accepts (hpos : 0 < threads.backlog) (ha : threads.acceptor = .listening) :
    Turn threads .acceptor { threads with
      backlog := threads.backlog - 1
      links := threads.links ++ [{ receiver := { max := threads.config.maxFrameSize } }]
      acceptor := .admitting threads.links.length }
  | turnsAway {id : Nat} {link : Link} (ha : threads.acceptor = .admitting id)
      (hstop : threads.stopping = true) (hlink : threads.links[id]? = some link) :
    Turn threads .acceptor
      { threads.setLink id { link with stage := .turnedAway } with acceptor := .joining }
  | registers {id : Nat} {link : Link} (ha : threads.acceptor = .admitting id)
      (hgo : threads.stopping = false) (hlink : threads.links[id]? = some link) :
    Turn threads .acceptor { threads.setLink id { link with stage := .registered } with
      registry := id :: threads.registry
      acceptor := .starting id }
  | starts {id : Nat} {link : Link} (ha : threads.acceptor = .starting id)
      (hlink : threads.links[id]? = some link) :
    Turn threads .acceptor
      { threads.setLink id (link.start threads.config) with acceptor := .keeping id }
  | keeps {id : Nat} (ha : threads.acceptor = .keeping id) :
    Turn threads .acceptor { threads with
      handles := threads.unfinished (threads.handles ++ [id]), acceptor := .listening }
  | joins (ha : threads.acceptor = .joining) (hall : threads.allJoined = true) :
    Turn threads .acceptor { threads with acceptor := .finished }
  | acceptFails (ha : threads.acceptor = .listening) :
    Turn threads .acceptorFails { threads with acceptor := threads.afterFailure }
  | copyFails {id : Nat} {link : Link} (ha : threads.acceptor = .admitting id)
      (hlink : threads.links[id]? = some link) :
    Turn threads .acceptorFails { threads.setLink id { link with stage := .turnedAway } with
      acceptor := threads.afterFailure }
  | startFails {id : Nat} {link : Link} (ha : threads.acceptor = .starting id)
      (hlink : threads.links[id]? = some link) :
    Turn threads .acceptorFails { threads.setLink id { link with stage := .turnedAway } with
      registry := threads.registry.erase id
      handles := threads.unfinished threads.handles
      acceptor := .listening }
  | arrives {id : Nat} {link : Link} {arrival : Except Failure (List UInt8)}
      (hlink : threads.links[id]? = some link) :
    Turn threads (.arrive id arrival)
      (threads.setLink id { link with receiver := link.receiver.arrive arrival })
  | serves {id : Nat} {link link' : Link} {state : σ} (hlink : threads.links[id]? = some link)
      (hstage : link.stage = .serving)
      (hserve : link.serveNext threads.handler threads.state none = some (link', state)) :
    Turn threads (.worker id) { threads.setLink id link' with state }
  | breaks {id taken : Nat} {failure : Failure} {link link' : Link} {state : σ}
      (hlink : threads.links[id]? = some link) (hstage : link.stage = .serving)
      (hserve : link.serveNext threads.handler threads.state (some (taken, failure)) =
        some (link', state)) :
    Turn threads (.workerFails id taken failure) { threads.setLink id link' with state }
  | leaves {id : Nat} {link : Link} {status : ServiceStatus}
      (hlink : threads.links[id]? = some link) (hstage : link.stage = .leaving status) :
    Turn threads (.worker id) { threads.setLink id { link with stage := .exiting status } with
      registry := threads.registry.erase id }
  | exits {id : Nat} {link : Link} {status : ServiceStatus}
      (hlink : threads.links[id]? = some link) (hstage : link.stage = .exiting status) :
    Turn threads (.worker id) (threads.setLink id { link with stage := .finished status })
  | stops (habsent : threads.stopper = .absent) : Turn threads .stop threads.announceStop
  | wakes (hwaking : threads.stopper = .waking) :
    Turn threads (.wake true)
      { threads with backlog := threads.backlog + 1, stopper := .joining }
  | detaches (hwaking : threads.stopper = .waking) :
    Turn threads (.wake false) { threads with stopper := .detached }
  | returns (hjoining : threads.stopper = .joining) (ha : threads.acceptor = .finished) :
    Turn threads .stopped { threads with stopper := .returned }

theorem turn_of_acceptorTurn (h : threads.acceptorTurn = some next) :
    threads.Turn .acceptor next := by
  unfold acceptorTurn at h
  split at h
  · next ha =>
    split at h
    · cases h
    · next hpos =>
      cases h
      exact .accepts (Nat.pos_of_ne_zero hpos) ha
  · next id ha =>
    obtain ⟨link, hlink, h⟩ := Option.bind_eq_some_iff.mp h
    split at h
    · next hstop =>
      cases h
      exact .turnsAway ha hstop hlink
    · next hgo =>
      cases h
      exact .registers ha (by simpa using hgo) hlink
  · next id ha =>
    obtain ⟨link, hlink, h⟩ := Option.bind_eq_some_iff.mp h
    cases h
    exact .starts ha hlink
  · next id ha =>
    cases h
    exact .keeps ha
  · next ha =>
    split at h
    · next hall =>
      cases h
      exact .joins ha hall
    · cases h
  · cases h

theorem turn_of_acceptorFailure (h : threads.acceptorFailure = some next) :
    threads.Turn .acceptorFails next := by
  unfold acceptorFailure at h
  split at h
  · next ha =>
    cases h
    exact .acceptFails ha
  · next id ha =>
    obtain ⟨link, hlink, h⟩ := Option.bind_eq_some_iff.mp h
    cases h
    exact .copyFails ha hlink
  · next id ha =>
    obtain ⟨link, hlink, h⟩ := Option.bind_eq_some_iff.mp h
    cases h
    exact .startFails ha hlink
  · cases h
  · cases h
  · cases h

theorem turn_of_workerTurn {id : Nat} (h : threads.workerTurn id = some next) :
    threads.Turn (.worker id) next := by
  obtain ⟨link, hlink, h⟩ := Option.bind_eq_some_iff.mp h
  split at h
  · next hstage =>
    obtain ⟨⟨link', state⟩, hserve, h⟩ := Option.bind_eq_some_iff.mp h
    cases h
    exact .serves hlink hstage hserve
  · next status hstage =>
    cases h
    exact .leaves hlink hstage
  · next status hstage =>
    cases h
    exact .exits hlink hstage
  · cases h

theorem turn_of_workerFailure {id taken : Nat} {failure : Failure}
    (h : threads.workerFailure id taken failure = some next) :
    threads.Turn (.workerFails id taken failure) next := by
  obtain ⟨link, hlink, h⟩ := Option.bind_eq_some_iff.mp h
  split at h
  · next hserving =>
    obtain ⟨⟨link', state⟩, hserve, h⟩ := Option.bind_eq_some_iff.mp h
    cases h
    exact .breaks hlink hserving.1 hserve
  · cases h

/-- **The turns are these.** -/
theorem turn_of_step {move : Move} (h : threads.step move = some next) :
    threads.Turn move next := by
  cases move with
  | connect => cases h; exact .connects
  | acceptor => exact turn_of_acceptorTurn h
  | acceptorFails => exact turn_of_acceptorFailure h
  | arrive id arrival =>
    obtain ⟨link, hlink, h⟩ := Option.bind_eq_some_iff.mp h
    cases h
    exact .arrives hlink
  | worker id => exact turn_of_workerTurn h
  | workerFails id taken failure => exact turn_of_workerFailure h
  | stop =>
    simp only [step] at h
    split at h
    · next habsent => cases h; exact .stops habsent
    · cases h
  | wake succeeds =>
    simp only [step] at h
    split at h
    · next hwaking =>
      cases succeeds with
      | true => cases h; exact .wakes hwaking
      | false => cases h; exact .detaches hwaking
    · cases h
  | stopped =>
    simp only [step] at h
    split at h
    · next hjoining ha => cases h; exact .returns hjoining ha
    · cases h

theorem run_turn {P : Threads σ → Prop}
    (hturn : ∀ {threads move next}, P threads → threads.Turn move next → P next)
    {moves : List Move} (hp : P threads) (h : threads.run moves = some next) : P next := by
  induction moves generalizing threads with
  | nil => cases h; exact hp
  | cons move rest ih =>
    obtain ⟨mid, hstep, hrest⟩ := Option.bind_eq_some_iff.mp h
    exact ih (hturn hp (turn_of_step hstep)) hrest

end Threads

/-! ## Connections -/

namespace Stage

/-- The registry names the connection. -/
def IsRegistered : Stage → Prop
  | registered | serving | leaving _ => True
  | accepted | exiting _ | finished _ | turnedAway => False

/-- No worker has been started for the connection. -/
def IsIdle : Stage → Prop
  | accepted | registered | turnedAway => True
  | serving | leaving _ | exiting _ | finished _ => False

end Stage

theorem Link.serveNext_stage {handler : Handler σ} {state state' : σ} {link link' : Link}
    {refusal : Option (Nat × Failure)}
    (h : link.serveNext handler state refusal = some (link', state'))
    (hs : link.stage = .serving) :
    (link'.stage = .serving ∨ ∃ status, link'.stage = .leaving status) ∧
      link'.shut = link.shut ∧ link'.receiver.ending.isSome = link.receiver.ending.isSome := by
  unfold serveNext at h
  split at h
  · cases h
  · next heq => cases h; exact ⟨.inr ⟨_, rfl⟩, rfl, Receiver.isSome_read heq⟩
  · next heq => cases h; exact ⟨.inr ⟨_, rfl⟩, rfl, Receiver.isSome_read heq⟩
  · next heq =>
    have hending := Receiver.isSome_read heq
    dsimp only at h
    split at h
    · cases h; exact ⟨.inr ⟨_, rfl⟩, rfl, hending⟩
    · cases h; exact ⟨.inr ⟨_, rfl⟩, rfl, hending⟩
    · split at h
      · cases h; exact ⟨.inr ⟨_, rfl⟩, rfl, hending⟩
      · split at h
        · cases h; exact ⟨.inr ⟨_, rfl⟩, rfl, hending⟩
        · cases h; exact ⟨.inl hs, rfl, hending⟩

theorem forall_set {P : Nat → Link → Prop} {links : List Link} {id : Nat} {link link' : Link}
    (hlink : links[id]? = some link) (hself : P id link')
    (hother : ∀ j ≠ id, ∀ other, links[j]? = some other → P j other) :
    ∀ (j : Nat) (other : Link), (links.set id link')[j]? = some other → P j other := by
  intro j other hj
  by_cases heq : j = id
  · subst heq
    rw [List.getElem?_set_self (List.getElem?_eq_some_iff.mp hlink).1] at hj
    cases hj
    exact hself
  · rw [List.getElem?_set_ne (Ne.symm heq)] at hj
    exact hother j heq other hj

theorem forall_concat {P : Nat → Link → Prop} {links : List Link} {link : Link}
    (hself : P links.length link)
    (hother : ∀ j < links.length, ∀ other, links[j]? = some other → P j other) :
    ∀ (j : Nat) (other : Link), (links ++ [link])[j]? = some other → P j other := by
  intro j other hj
  by_cases hlt : j < links.length
  · rw [List.getElem?_append_left hlt] at hj
    exact hother j hlt other hj
  · rw [List.getElem?_append_right (Nat.le_of_not_lt hlt)] at hj
    obtain ⟨hzero, rfl⟩ : j - links.length = 0 ∧ link = other := by
      simpa [List.getElem?_singleton] using hj
    obtain rfl : j = links.length := by omega
    exact hself

/-- How a connection stands in its server. -/
structure Link.Stands (registry : List Nat) (acceptor : Acceptor) (id : Nat) (link : Link) :
    Prop where
  registered : id ∈ registry ↔ link.stage.IsRegistered
  admitting : link.stage = .accepted ↔ acceptor = .admitting id
  starting : link.stage = .registered ↔ acceptor = .starting id
  /-- Without a worker, nothing is handled. -/
  idle : link.stage.IsIdle → link.requests = [] ∧ link.sent = []
  /-- A connection that was shut down has ended for its worker. -/
  shut : link.shut = true → link.receiver.ending ≠ none

namespace Link.Stands

variable {registry registry' : List Nat} {acceptor acceptor' : Acceptor} {id : Nat} {link : Link}

theorem frame (h : link.Stands registry acceptor id) (hr : id ∈ registry' ↔ id ∈ registry)
    (ha : acceptor' = .admitting id ↔ acceptor = .admitting id)
    (hs : acceptor' = .starting id ↔ acceptor = .starting id) :
    link.Stands registry' acceptor' id where
  registered := hr.trans h.registered
  admitting := h.admitting.trans ha.symm
  starting := h.starting.trans hs.symm
  idle := h.idle
  shut := h.shut

theorem moves (h : link.Stands registry acceptor id) {stage : Stage}
    (hidle : stage.IsIdle → link.stage.IsIdle) (hr : id ∈ registry' ↔ stage.IsRegistered)
    (ha : stage = .accepted ↔ acceptor' = .admitting id)
    (hs : stage = .registered ↔ acceptor' = .starting id) :
    Link.Stands registry' acceptor' id { link with stage } where
  registered := hr
  admitting := ha
  starting := hs
  idle hi := h.idle (hidle hi)
  shut := h.shut

/-- A connection with a worker is not in the hand of the accept loop. -/
theorem works (h : link.Stands registry acceptor id) (hbusy : ¬link.stage.IsIdle) {link' : Link}
    (hbusy' : ¬link'.stage.IsIdle) (hr : id ∈ registry' ↔ link'.stage.IsRegistered)
    (hshut : link'.shut = true → link'.receiver.ending ≠ none) :
    link'.Stands registry' acceptor id where
  registered := hr
  admitting := by
    refine iff_of_false (fun hs => hbusy' (hs ▸ trivial)) ?_
    exact fun ha => hbusy (h.admitting.mpr ha ▸ trivial)
  starting := by
    refine iff_of_false (fun hs => hbusy' (hs ▸ trivial)) ?_
    exact fun ha => hbusy (h.starting.mpr ha ▸ trivial)
  idle hi := absurd hi hbusy'
  shut := hshut

theorem shutDown (h : link.Stands registry acceptor id) :
    link.shutDown.Stands registry acceptor id where
  registered := h.registered
  admitting := h.admitting
  starting := h.starting
  idle := h.idle
  shut _ := link.receiver.ending_stop .ended

end Link.Stands

namespace Threads

theorem afterFailure_eq (threads : Threads σ) :
    threads.afterFailure = .joining ∨ threads.afterFailure = .listening := by
  cases hstop : threads.stopping with
  | true => exact .inl (by simp [afterFailure, hstop])
  | false => exact .inr (by simp [afterFailure, hstop])

theorem getElem?_announceStop {threads : Threads σ} {id : Nat} {link : Link}
    (h : threads.announceStop.links[id]? = some link) :
    ∃ old, threads.links[id]? = some old ∧
      link = if id ∈ threads.registry then old.shutDown else old := by
  rw [announceStop, List.getElem?_mapIdx, Option.map_eq_some_iff] at h
  obtain ⟨old, hold, rfl⟩ := h
  exact ⟨old, hold, rfl⟩

/-- **The registry is exact.** -/
structure Registered (links : List Link) (registry : List Nat) (acceptor : Acceptor) : Prop where
  nodup : registry.Nodup
  known : ∀ id ∈ registry, id < links.length
  stands : ∀ (id : Nat) (link : Link), links[id]? = some link → link.Stands registry acceptor id

namespace Registered

variable {links : List Link} {registry registry' : List Nat} {acceptor acceptor' : Acceptor}
  {id : Nat} {link link' : Link}

theorem idle (h : Registered links registry acceptor)
    (ha : ∀ id, acceptor' = .admitting id ↔ acceptor = .admitting id)
    (hs : ∀ id, acceptor' = .starting id ↔ acceptor = .starting id) :
    Registered links registry acceptor' where
  nodup := h.nodup
  known := h.known
  stands id link hlink := (h.stands id link hlink).frame Iff.rfl (ha id) (hs id)

theorem set (h : Registered links registry acceptor) (hlink : links[id]? = some link)
    (hnodup : registry'.Nodup) (hother : ∀ j ≠ id, j ∈ registry' ↔ j ∈ registry)
    (hacceptor : ∀ j ≠ id, (acceptor' = .admitting j ↔ acceptor = .admitting j) ∧
      (acceptor' = .starting j ↔ acceptor = .starting j))
    (hself : link'.Stands registry' acceptor' id) :
    Registered (links.set id link') registry' acceptor' where
  nodup := hnodup
  known j hj := by
    rw [List.length_set]
    by_cases heq : j = id
    · rw [heq]
      exact (List.getElem?_eq_some_iff.mp hlink).1
    · exact h.known j ((hother j heq).mp hj)
  stands := forall_set hlink hself fun j heq other hj =>
    (h.stands j other hj).frame (hother j heq) (hacceptor j heq).1 (hacceptor j heq).2

theorem replace (h : Registered links registry acceptor) (hlink : links[id]? = some link)
    (hself : link.Stands registry acceptor id → link'.Stands registry acceptor id) :
    Registered (links.set id link') registry acceptor :=
  h.set hlink h.nodup (fun _ _ => Iff.rfl) (fun _ _ => ⟨Iff.rfl, Iff.rfl⟩)
    (hself (h.stands id link hlink))

theorem accepts (h : Registered links registry acceptor) (ha : acceptor = .listening)
    (max : UInt32) :
    Registered (links ++ [{ receiver := { max } }]) registry (.admitting links.length) where
  nodup := h.nodup
  known id hid := by
    rw [List.length_append]
    exact Nat.lt_of_lt_of_le (h.known id hid) (Nat.le_add_right _ _)
  stands := by
    have hunknown : links.length ∉ registry := fun hm => Nat.lt_irrefl _ (h.known _ hm)
    refine forall_concat ?_ fun id hlt link hlink => ?_
    · constructor
      all_goals simp [hunknown, Stage.IsRegistered]
    · refine (h.stands id link hlink).frame Iff.rfl ?_ ?_
      · simp [ha, Nat.ne_of_gt hlt]
      · simp [ha]

/-- The accept loop gives up the connection in its hand before it comes into the registry. -/
theorem gaveUp (h : Registered links registry acceptor) (ha : acceptor = .admitting id)
    (hlink : links[id]? = some link) (hnext : acceptor' = .joining ∨ acceptor' = .listening) :
    Registered (links.set id { link with stage := .turnedAway }) registry acceptor' := by
  have hstands := h.stands id link hlink
  have hstage := hstands.admitting.mpr ha
  have hnot : id ∉ registry := by simp [hstands.registered, hstage, Stage.IsRegistered]
  have hfree : ∀ j, acceptor' ≠ .admitting j ∧ acceptor' ≠ .starting j := by
    intro j
    rcases hnext with rfl | rfl <;> exact ⟨nofun, nofun⟩
  refine h.set hlink h.nodup (fun _ _ => Iff.rfl) ?_ (hstands.moves ?_ ?_ ?_ ?_)
  · intro j hj
    simp [ha, hfree j, Ne.symm hj]
  · simp [hstage, Stage.IsIdle]
  · exact iff_of_false hnot not_false
  · simp [hfree]
  · simp [hfree]

theorem serves (h : Registered links registry acceptor) (hlink : links[id]? = some link)
    (hstage : link.stage = .serving) {handler : Handler σ} {state state' : σ}
    {refusal : Option (Nat × Failure)}
    (hserve : link.serveNext handler state refusal = some (link', state')) :
    Registered (links.set id link') registry acceptor := by
  obtain ⟨hstage', hshut, hending⟩ := Link.serveNext_stage hserve hstage
  have hbusy : ¬link'.stage.IsIdle ∧ link'.stage.IsRegistered := by
    rcases hstage' with heq | ⟨status, heq⟩
    · rw [heq]
      exact ⟨not_false, trivial⟩
    · rw [heq]
      exact ⟨not_false, trivial⟩
  refine h.replace hlink fun hstands => hstands.works ?_ hbusy.1 ?_ ?_
  · simp [hstage, Stage.IsIdle]
  · exact iff_of_true (hstands.registered.mpr (by rw [hstage]; trivial)) hbusy.2
  · intro hs
    have hended := hstands.shut (hshut ▸ hs)
    rwa [← Option.isSome_iff_ne_none, hending, Option.isSome_iff_ne_none]

/-- **Every turn keeps the registry exact.** -/
theorem turn {threads next : Threads σ} {move : Move}
    (h : Registered threads.links threads.registry threads.acceptor)
    (ht : threads.Turn move next) :
    Registered next.links next.registry next.acceptor := by
  cases ht with
  | connects | wakes | detaches | returns => exact h
  | accepts _ ha => exact h.accepts ha _
  | turnsAway ha _ hlink => exact h.gaveUp ha hlink (.inl rfl)
  | @registers id link ha _ hlink =>
    have hstands := h.stands id link hlink
    have hstage := hstands.admitting.mpr ha
    have hnot : id ∉ threads.registry := by simp [hstands.registered, hstage, Stage.IsRegistered]
    refine h.set hlink (List.nodup_cons.mpr ⟨hnot, h.nodup⟩) ?_ ?_ (hstands.moves ?_ ?_ ?_ ?_)
    · intro j hj
      simp [hj]
    · intro j hj
      simp [ha, Ne.symm hj]
    · simp [hstage, Stage.IsIdle]
    · simp [Stage.IsRegistered]
    · simp
    · simp
  | @starts id link ha hlink =>
    have hstands := h.stands id link hlink
    have hstage := hstands.starting.mpr ha
    have hin : id ∈ threads.registry := by simp [hstands.registered, hstage, Stage.IsRegistered]
    refine h.set hlink h.nodup (fun _ _ => Iff.rfl) ?_ ?_
    · intro j hj
      simp [ha, Ne.symm hj]
    · unfold Link.start
      split
      · exact hstands.moves (by simp [Stage.IsIdle]) (iff_of_true hin trivial) (by simp) (by simp)
      · exact hstands.moves (by simp [Stage.IsIdle]) (iff_of_true hin trivial) (by simp) (by simp)
  | @keeps id ha => exact h.idle (by simp [ha]) (by simp [ha])
  | joins ha => exact h.idle (by simp [ha]) (by simp [ha])
  | acceptFails ha =>
    obtain hnext | hnext := threads.afterFailure_eq
    · rw [hnext]
      exact h.idle (by simp [ha]) (by simp [ha])
    · rw [hnext]
      exact h.idle (by simp [ha]) (by simp [ha])
  | copyFails ha hlink => exact h.gaveUp ha hlink threads.afterFailure_eq
  | @startFails id link ha hlink =>
    have hstands := h.stands id link hlink
    have hstage := hstands.starting.mpr ha
    refine h.set hlink (h.nodup.erase id) ?_ ?_ (hstands.moves ?_ ?_ ?_ ?_)
    · intro j hj
      exact List.mem_erase_of_ne hj
    · intro j hj
      simp [ha, Ne.symm hj]
    · simp [hstage, Stage.IsIdle]
    · exact iff_of_false h.nodup.not_mem_erase not_false
    · simp
    · simp
  | @arrives id link arrival hlink =>
    refine h.replace hlink fun hstands => { hstands with shut := fun hshut => ?_ }
    have hended := hstands.shut hshut
    rwa [Receiver.arrive_of_stopped hended]
  | serves hlink hstage hserve | breaks hlink hstage hserve => exact h.serves hlink hstage hserve
  | @leaves id link status hlink hstage =>
    have hstands := h.stands id link hlink
    refine h.set hlink (h.nodup.erase id) ?_ (fun _ _ => ⟨Iff.rfl, Iff.rfl⟩)
      (hstands.works ?_ ?_ ?_ hstands.shut)
    · intro j hj
      exact List.mem_erase_of_ne hj
    · simp [hstage, Stage.IsIdle]
    · simp [Stage.IsIdle]
    · exact iff_of_false h.nodup.not_mem_erase not_false
  | @exits id link status hlink hstage =>
    refine h.replace hlink fun hstands => hstands.works ?_ ?_ ?_ hstands.shut
    · simp [hstage, Stage.IsIdle]
    · simp [Stage.IsIdle]
    · simp [hstands.registered, hstage, Stage.IsRegistered]
  | stops =>
    refine ⟨h.nodup, fun id hid => ?_, fun id link hlink => ?_⟩
    · rw [announceStop, List.length_mapIdx]
      exact h.known id hid
    · obtain ⟨old, hold, rfl⟩ := getElem?_announceStop hlink
      split
      · exact (h.stands id old hold).shutDown
      · exact h.stands id old hold

end Registered

theorem registered_start (config : Config) (handler : Handler σ) (state : σ) :
    Registered (start config handler state).links (start config handler state).registry
      (start config handler state).acceptor :=
  ⟨List.nodup_nil, fun _ hm => absurd hm List.not_mem_nil, fun _ _ hlink => by cases hlink⟩

theorem registered_of_run {config : Config} {handler : Handler σ} {state : σ} {moves : List Move}
    {threads : Threads σ} (h : (start config handler state).run moves = some threads) :
    Registered threads.links threads.registry threads.acceptor :=
  run_turn (P := fun threads => Registered threads.links threads.registry threads.acceptor)
    Registered.turn (registered_start config handler state) h

end Threads

end Parley.Server
