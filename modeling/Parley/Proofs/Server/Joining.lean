import Mathlib.Data.List.Induction
import Parley.Proofs.Server.Registry

/-!
# No worker is forgotten

What the registry holds can be told from the moves that were made (`Happened`), and nobody who
waits for the server comes before its workers.

**The registry as a history** (`Recorded`). Two kinds of moves are about the registry: the accept
loop enters a connection under the lock, and the connection's worker takes it out again, or the
attempt to start one does (`Enters`, `Leaves`). The registry names the connections of which the
first has happened and the second has not. A connection is entered once at most, because it is in
the hand of the accept loop then and never again.

**Handles** (`Kept`). The accept loop keeps the handle of every worker that it has started, in the
turn after the start, and forgets only handles of workers that have exited. So when it has waited
for those that it has, there is no other.

**Theorem (`registry_exact`).** In every state of every run the registry is exact, and the end of
the accept loop, and so that of a stop that waits for it, comes after the end of every worker.
-/

namespace Parley.Server

namespace Stage

/-- A worker has been started for the connection and has not exited. -/
def HasWorker : Stage → Prop
  | serving | leaving _ | exiting _ => True
  | accepted | registered | finished _ | turnedAway => False

/-- The server is done with the connection. -/
def IsOver : Stage → Prop
  | finished _ | turnedAway => True
  | accepted | registered | serving | leaving _ | exiting _ => False

theorem IsOver.not_isRegistered {stage : Stage} (h : stage.IsOver) : ¬stage.IsRegistered := by
  cases stage with
  | finished | turnedAway => exact id
  | accepted | registered | serving | leaving | exiting => cases h

theorem IsOver.not_hasWorker {stage : Stage} (h : stage.IsOver) : ¬stage.HasWorker := by
  cases stage with
  | finished | turnedAway => exact id
  | accepted | registered | serving | leaving | exiting => cases h

end Stage

/-- The move is a turn of the connection's worker, at a socket that fails or does not. -/
inductive Move.IsWorkers (id : Nat) : Move → Prop
  | turn : IsWorkers id (.worker id)
  | fails (taken : Nat) (failure : Failure) : IsWorkers id (.workerFails id taken failure)

namespace Threads

variable {σ : Type} {origin mid threads next : Threads σ} {past moves : List Move} {move : Move}
  {id : Nat}

/-! ## Histories -/

/-- On the way of a run, a move was made in a state so that `P` holds of both. -/
def Happened (P : Threads σ → Move → Prop) (origin : Threads σ) (moves : List Move) : Prop :=
  ∃ past move mid, past ++ [move] <+: moves ∧ origin.run past = some mid ∧ P mid move

theorem run_concat (origin : Threads σ) (past : List Move) (move : Move) :
    origin.run (past ++ [move]) = (origin.run past).bind (·.step move) := by
  simp [run, List.foldlM_append]

theorem run_history {P : List Move → Threads σ → Prop} (hnil : P [] origin)
    (hconcat : ∀ {past mid move next}, origin.run past = some mid → P past mid →
      mid.Turn move next → P (past ++ [move]) next)
    (h : origin.run moves = some threads) : P moves threads := by
  induction moves using List.reverseRecOn generalizing threads with
  | nil => cases h; exact hnil
  | append_singleton past move ih =>
    rw [run_concat] at h
    obtain ⟨mid, hpast, hstep⟩ := Option.bind_eq_some_iff.mp h
    exact hconcat hpast (ih hpast) (turn_of_step hstep)

theorem not_happened_nil (P : Threads σ → Move → Prop) : ¬Happened P origin [] := by
  rintro ⟨past, move, mid, hpart, -⟩
  simp at hpart

theorem happened_concat {P : Threads σ → Move → Prop} (h : origin.run past = some mid) :
    Happened P origin (past ++ [move]) ↔ Happened P origin past ∨ P mid move := by
  constructor
  · rintro ⟨before, made, state, hpart, hrun, hp⟩
    rcases List.prefix_concat_iff.mp hpart with heq | hpart
    · obtain ⟨rfl, hlast⟩ := List.append_inj' heq rfl
      obtain rfl : made = move := List.singleton_injective hlast
      cases h.symm.trans hrun
      exact .inr hp
    · exact .inl ⟨before, made, state, hpart, hrun, hp⟩
  · rintro (⟨before, made, state, hpart, hrun, hp⟩ | hp)
    · exact ⟨before, made, state, hpart.trans (List.prefix_append _ _), hrun, hp⟩
    · exact ⟨past, move, mid, List.prefix_rfl, h, hp⟩

/-- The accept loop enters the connection in the registry. -/
def Enters (id : Nat) (threads : Threads σ) (move : Move) : Prop :=
  move = .acceptor ∧ threads.acceptor = .admitting id ∧ threads.stopping = false

/-- The connection's worker takes it out of the registry, or the failed start of one does. -/
def Leaves (id : Nat) (threads : Threads σ) (move : Move) : Prop :=
  (move = .worker id ∧ ∃ link status, threads.links[id]? = some link ∧
    link.stage = .leaving status) ∨
  move = .acceptorFails ∧ threads.acceptor = .starting id

/-! ## The registry as a history -/

/-- What the registry holds, by the moves made. -/
structure Recorded (origin : Threads σ) (past : List Move) (threads : Threads σ) (id : Nat) :
    Prop where
  registered : id ∈ threads.registry ↔
    Happened (Enters id) origin past ∧ ¬Happened (Leaves id) origin past
  entered : Happened (Leaves id) origin past → Happened (Enters id) origin past
  /-- A connection that has been entered is not in the hand of the accept loop again. -/
  once : Happened (Enters id) origin past →
    ∃ link, threads.links[id]? = some link ∧ link.stage ≠ .accepted

theorem Recorded.keep (h : Recorded origin past mid id) (hrun : origin.run past = some mid)
    (henters : ¬Enters id mid move) (hleaves : ¬Leaves id mid move)
    (hr : id ∈ next.registry ↔ id ∈ mid.registry)
    (hlinks : ∀ link, mid.links[id]? = some link → link.stage ≠ .accepted →
      ∃ link', next.links[id]? = some link' ∧ link'.stage ≠ .accepted) :
    Recorded origin (past ++ [move]) next id where
  registered := by
    rw [happened_concat hrun, happened_concat hrun, hr, h.registered]
    simp [henters, hleaves]
  entered hleft := by
    rw [happened_concat hrun] at hleft ⊢
    exact .inl (h.entered (hleft.resolve_right hleaves))
  once hentered := by
    rw [happened_concat hrun] at hentered
    obtain ⟨link, hlink, hstage⟩ := h.once (hentered.resolve_right henters)
    exact hlinks link hlink hstage

theorem Recorded.enters {link link' : Link} (h : Recorded origin past mid id)
    (hrun : origin.run past = some mid) (henters : Enters id mid move)
    (hleaves : ¬Leaves id mid move) (hlink : mid.links[id]? = some link)
    (hstage : link.stage = .accepted) (hin : id ∈ next.registry)
    (hlink' : next.links[id]? = some link') (hstage' : link'.stage ≠ .accepted) :
    Recorded origin (past ++ [move]) next id := by
  have hnew : ¬Happened (Enters id) origin past := by
    intro hentered
    obtain ⟨old, hold, hne⟩ := h.once hentered
    cases hlink.symm.trans hold
    exact hne hstage
  have hstays : ¬Happened (Leaves id) origin past := fun hleft => hnew (h.entered hleft)
  exact {
    registered := by
      rw [happened_concat hrun, happened_concat hrun]
      simp [henters, hleaves, hstays, hin]
    entered := fun _ => (happened_concat hrun).mpr (.inr henters)
    once := fun _ => ⟨link', hlink', hstage'⟩ }

theorem Recorded.leaves (h : Recorded origin past mid id) (hrun : origin.run past = some mid)
    (hleaves : Leaves id mid move) (hin : id ∈ mid.registry) (hout : id ∉ next.registry)
    (hlinks : ∀ link, mid.links[id]? = some link → link.stage ≠ .accepted →
      ∃ link', next.links[id]? = some link' ∧ link'.stage ≠ .accepted) :
    Recorded origin (past ++ [move]) next id := by
  obtain ⟨hentered, -⟩ := h.registered.mp hin
  exact {
    registered := by
      rw [happened_concat hrun, happened_concat hrun]
      simp [hleaves, hout]
    entered := fun _ => (happened_concat hrun).mpr (.inl hentered)
    once := fun _ => by
      obtain ⟨link, hlink, hstage⟩ := h.once hentered
      exact hlinks link hlink hstage }

theorem exists_set {links : List Link} {link' : Link} {index : Nat}
    (h : ∀ link, links[index]? = some link → link.stage ≠ .accepted → link'.stage ≠ .accepted)
    (link : Link) (hlink : links[id]? = some link) (hstage : link.stage ≠ .accepted) :
    ∃ other, (links.set index link')[id]? = some other ∧ other.stage ≠ .accepted := by
  by_cases heq : index = id
  · subst heq
    exact ⟨link', List.getElem?_set_self (List.getElem?_eq_some_iff.mp hlink).1,
      h link hlink hstage⟩
  · exact ⟨link, (List.getElem?_set_ne heq).trans hlink, hstage⟩

/-- No connection comes into the hand of the accept loop a second time. -/
theorem Turn.exists_link (ht : mid.Turn move next) (id : Nat) (link : Link)
    (hlink : mid.links[id]? = some link) (hstage : link.stage ≠ .accepted) :
    ∃ link', next.links[id]? = some link' ∧ link'.stage ≠ .accepted := by
  cases ht with
  | connects | keeps | joins | acceptFails | wakes | detaches | returns =>
    exact ⟨link, hlink, hstage⟩
  | accepts =>
    exact ⟨link, List.getElem?_append_left (List.getElem?_eq_some_iff.mp hlink).1 ▸ hlink, hstage⟩
  | turnsAway | registers | copyFails | startFails | leaves | exits =>
    exact exists_set (fun _ _ _ => nofun) link hlink hstage
  | starts =>
    refine exists_set (fun _ _ _ => ?_) link hlink hstage
    unfold Link.start
    split <;> exact nofun
  | arrives hold =>
    refine exists_set (fun old hother hne => ?_) link hlink hstage
    cases hold.symm.trans hother
    exact hne
  | serves _ hserving hserve | breaks _ hserving hserve =>
    refine exists_set (fun _ _ _ => ?_) link hlink hstage
    rcases (Link.serveNext_stage hserve hserving).1 with heq | ⟨status, heq⟩ <;> simp [heq]
  | stops =>
    refine ⟨if id ∈ mid.registry then link.shutDown else link, ?_, ?_⟩
    · simp [announceStop, hlink]
    · split <;> exact hstage

theorem not_leaves_worker (id : Nat) {index : Nat} {link : Link}
    (hlink : mid.links[index]? = some link) (hstage : ∀ status, link.stage ≠ .leaving status) :
    ¬Leaves id mid (.worker index) := by
  rintro (⟨heq, other, status, hother, hleaving⟩ | ⟨heq, -⟩)
  · cases heq
    cases hlink.symm.trans hother
    exact hstage status hleaving
  · cases heq

/-- **Every turn is recorded.** -/
theorem Recorded.turn (h : Recorded origin past mid id) (hrun : origin.run past = some mid)
    (hr : Registered mid.links mid.registry mid.acceptor) (ht : mid.Turn move next) :
    Recorded origin (past ++ [move]) next id := by
  have hlinks := fun link hlink hstage => ht.exists_link id link hlink hstage
  cases ht with
  | connects | wakes | detaches | returns | arrives | breaks | stops =>
    exact h.keep hrun (by simp [Enters]) (by simp [Leaves]) Iff.rfl hlinks
  | accepts _ ha | keeps ha | joins ha | starts ha | acceptFails ha | copyFails ha =>
    exact h.keep hrun (by simp [Enters, ha]) (by simp [Leaves, ha]) Iff.rfl hlinks
  | turnsAway _ hstop =>
    exact h.keep hrun (by simp [Enters, hstop]) (by simp [Leaves]) Iff.rfl hlinks
  | @registers index link ha hgo hlink =>
    by_cases heq : id = index
    · subst heq
      refine h.enters hrun ⟨rfl, ha, hgo⟩ (by simp [Leaves]) hlink
        ((hr.stands id link hlink).admitting.mpr ha) List.mem_cons_self
        (List.getElem?_set_self (List.getElem?_eq_some_iff.mp hlink).1) nofun
    · have hne : ¬Enters id mid .acceptor := by simp [Enters, ha, Ne.symm heq]
      exact h.keep hrun hne (by simp [Leaves]) (by simp [heq]) hlinks
  | serves hlink hstage =>
    have hne := not_leaves_worker id hlink (by simp [hstage])
    exact h.keep hrun (by simp [Enters]) hne Iff.rfl hlinks
  | exits hlink hstage =>
    have hne := not_leaves_worker id hlink (by simp [hstage])
    exact h.keep hrun (by simp [Enters]) hne Iff.rfl hlinks
  | @leaves index link status hlink hstage =>
    by_cases heq : id = index
    · subst heq
      have hin : id ∈ mid.registry :=
        (hr.stands id link hlink).registered.mpr (by rw [hstage]; trivial)
      exact h.leaves hrun (.inl ⟨rfl, link, status, hlink, hstage⟩) hin hr.nodup.not_mem_erase
        hlinks
    · have hne : ¬Leaves id mid (.worker index) := by simp [Leaves, Ne.symm heq]
      exact h.keep hrun (by simp [Enters]) hne (List.mem_erase_of_ne heq) hlinks
  | @startFails index link ha hlink =>
    by_cases heq : id = index
    · subst heq
      have hin : id ∈ mid.registry :=
        (hr.stands id link hlink).registered.mpr
          (by rw [(hr.stands id link hlink).starting.mpr ha]; trivial)
      exact h.leaves hrun (.inr ⟨rfl, ha⟩) hin hr.nodup.not_mem_erase hlinks
    · have hne : ¬Leaves id mid .acceptorFails := by simp [Leaves, ha, Ne.symm heq]
      exact h.keep hrun (by simp [Enters]) hne (List.mem_erase_of_ne heq) hlinks

theorem recorded_of_run (h : origin.run moves = some threads) (hempty : origin.registry = [])
    (hr : Registered origin.links origin.registry origin.acceptor) (id : Nat) :
    Recorded origin moves threads id := by
  refine (run_history (P := fun past mid => Recorded origin past mid id ∧
    Registered mid.links mid.registry mid.acceptor) ⟨?_, hr⟩ ?_ h).1
  · exact {
      registered := by simp [hempty, not_happened_nil]
      entered := fun hleft => absurd hleft (not_happened_nil _)
      once := fun hentered => absurd hentered (not_happened_nil _) }
  · intro past mid move next hrun hmid ht
    exact ⟨hmid.1.turn hrun hmid.2 ht, hmid.2.turn ht⟩

/-! ## Handles -/

/-- No worker is forgotten before it has exited. -/
structure Kept (threads : Threads σ) : Prop where
  working : ∀ (id : Nat) (link : Link), threads.links[id]? = some link → link.stage.HasWorker →
    id ∈ threads.handles ∨ threads.acceptor = .keeping id
  concluded : threads.acceptor = .finished →
    ∀ (id : Nat) (link : Link), threads.links[id]? = some link → link.stage.IsOver
  returned : threads.stopper = .returned → threads.acceptor = .finished

theorem mem_unfinished {ids : List Nat} {link : Link} (hlink : threads.links[id]? = some link)
    (hw : link.stage.HasWorker) (hid : id ∈ ids) : id ∈ threads.unfinished ids := by
  refine List.mem_filter.mpr ⟨hid, ?_⟩
  have hnot : link.isFinished = false := by
    unfold Link.isFinished
    cases hstage : link.stage with
    | finished => rw [hstage] at hw; cases hw
    | accepted | registered | serving | leaving | exiting | turnedAway => rfl
  simp [hlink, hnot]

theorem Kept.goes (h : Kept threads) (hne : threads.acceptor ≠ .finished)
    (hne' : next.acceptor ≠ .finished) (hstopper : next.stopper = threads.stopper)
    (hworking : ∀ (id : Nat) (link : Link), next.links[id]? = some link → link.stage.HasWorker →
      id ∈ next.handles ∨ next.acceptor = .keeping id) : Kept next where
  working := hworking
  concluded hf := absurd hf hne'
  returned hs := absurd (h.returned (hstopper ▸ hs)) hne

theorem Kept.works {link link' : Link} (h : Kept threads) (hlink : threads.links[id]? = some link)
    (hw : link.stage.HasWorker) (hlinks : next.links = threads.links.set id link')
    (hhandles : next.handles = threads.handles) (hacceptor : next.acceptor = threads.acceptor)
    (hstopper : next.stopper = threads.stopper) : Kept next := by
  have hne : threads.acceptor ≠ .finished :=
    fun hf => (h.concluded hf id link hlink).not_hasWorker hw
  refine h.goes hne (hacceptor ▸ hne) hstopper ?_
  rw [hlinks, hhandles, hacceptor]
  exact forall_set hlink (fun _ => h.working id link hlink hw)
    fun j _ other hj => h.working j other hj

theorem Kept.putsDown {link link' : Link} (h : Kept threads)
    (hbusy : threads.acceptor ≠ .finished ∧ ∀ j, threads.acceptor ≠ .keeping j)
    (hlink : threads.links[id]? = some link) (hlinks : next.links = threads.links.set id link')
    (hne : next.acceptor ≠ .finished) (hstopper : next.stopper = threads.stopper)
    (hhandles : next.handles = threads.handles ∨ next.handles = threads.unfinished threads.handles)
    (hself : link'.stage.HasWorker → next.acceptor = .keeping id) : Kept next := by
  refine h.goes hbusy.1 hne hstopper ?_
  rw [hlinks]
  refine forall_set hlink (fun hw => .inr (hself hw)) fun j _ other hj hw => .inl ?_
  have hold := (h.working j other hj hw).resolve_right (hbusy.2 j)
  rcases hhandles with heq | heq
  · rwa [heq]
  · rw [heq]
    exact mem_unfinished hj hw hold

theorem afterFailure_ne_finished (threads : Threads σ) : threads.afterFailure ≠ .finished := by
  rcases threads.afterFailure_eq with heq | heq <;> simp [heq]

/-- **No turn forgets a worker.** -/
theorem Kept.turn (h : Kept threads)
    (hr : Registered threads.links threads.registry threads.acceptor)
    (ht : threads.Turn move next) : Kept next := by
  cases ht with
  | connects => exact ⟨h.working, h.concluded, h.returned⟩
  | wakes | detaches => exact ⟨h.working, h.concluded, nofun⟩
  | returns _ ha => exact ⟨h.working, h.concluded, fun _ => ha⟩
  | accepts _ ha =>
    refine h.goes (by simp [ha]) nofun rfl (forall_concat False.elim fun j _ other hj hw => ?_)
    exact .inl ((h.working j other hj hw).resolve_right (by simp [ha]))
  | turnsAway ha _ hlink =>
    exact h.putsDown (by simp [ha]) hlink rfl nofun rfl (.inl rfl) False.elim
  | registers ha _ hlink =>
    exact h.putsDown (by simp [ha]) hlink rfl nofun rfl (.inl rfl) False.elim
  | starts ha hlink =>
    exact h.putsDown (by simp [ha]) hlink rfl nofun rfl (.inl rfl) fun _ => rfl
  | copyFails ha hlink =>
    exact h.putsDown (by simp [ha]) hlink rfl threads.afterFailure_ne_finished rfl (.inl rfl)
      False.elim
  | startFails ha hlink =>
    exact h.putsDown (by simp [ha]) hlink rfl nofun rfl (.inr rfl) False.elim
  | acceptFails ha =>
    refine h.goes (by simp [ha]) threads.afterFailure_ne_finished rfl fun id link hlink hw => ?_
    exact .inl ((h.working id link hlink hw).resolve_right (by simp [ha]))
  | @keeps index ha =>
    refine h.goes (by simp [ha]) nofun rfl fun id link hlink hw => .inl (mem_unfinished hlink hw ?_)
    rcases h.working id link hlink hw with hold | hnew
    · exact List.mem_append_left _ hold
    · obtain rfl : index = id := by simpa [ha] using hnew
      exact List.mem_append_right _ List.mem_cons_self
  | joins ha hall =>
    refine ⟨fun id link hlink hw => ?_, fun _ id link hlink => ?_, fun hs => ?_⟩
    · exact .inl ((h.working id link hlink hw).resolve_right (by simp [ha]))
    · have hstands := hr.stands id link hlink
      have hhandle : link.stage.HasWorker → link.isFinished = true := by
        intro hw
        have hold := (h.working id link hlink hw).resolve_right (by simp [ha])
        have hfinished := List.all_eq_true.mp hall id hold
        simpa [hlink] using hfinished
      cases hstage : link.stage with
      | accepted => simp [hstands.admitting.mp hstage] at ha
      | registered => simp [hstands.starting.mp hstage] at ha
      | serving | leaving | exiting => simp [hstage, Stage.HasWorker, Link.isFinished] at hhandle
      | finished | turnedAway => trivial
    · rfl
  | @arrives index link arrival hlink =>
    have hworking := h.working index link hlink
    refine ⟨forall_set hlink hworking fun j _ other hj => h.working j other hj, fun hf => ?_,
      h.returned⟩
    have hover : link.stage.IsOver := h.concluded hf index link hlink
    exact forall_set hlink hover fun j _ other hj => h.concluded hf j other hj
  | serves hlink hstage | breaks hlink hstage =>
    exact h.works hlink (by rw [hstage]; trivial) rfl rfl rfl rfl
  | leaves hlink hstage => exact h.works hlink (by rw [hstage]; trivial) rfl rfl rfl rfl
  | exits hlink hstage => exact h.works hlink (by rw [hstage]; trivial) rfl rfl rfl rfl
  | stops =>
    have hstage : ∀ (id : Nat) (link : Link), threads.announceStop.links[id]? = some link →
        ∃ old, threads.links[id]? = some old ∧ link.stage = old.stage := by
      intro id link hlink
      obtain ⟨old, hold, rfl⟩ := getElem?_announceStop hlink
      exact ⟨old, hold, by split <;> rfl⟩
    refine ⟨fun id link hlink hw => ?_, fun hf id link hlink => ?_, nofun⟩
    · obtain ⟨old, hold, heq⟩ := hstage id link hlink
      exact h.working id old hold (heq ▸ hw)
    · obtain ⟨old, hold, heq⟩ := hstage id link hlink
      exact heq ▸ h.concluded hf id old hold

theorem kept_of_run {config : Config} {handler : Handler σ} {state : σ}
    (h : (start config handler state).run moves = some threads) : Kept threads := by
  refine (run_turn (P := fun threads => Kept threads ∧
    Registered threads.links threads.registry threads.acceptor)
    (fun h ht => ⟨h.1.turn h.2 ht, h.2.turn ht⟩)
    ⟨?_, registered_start config handler state⟩ h).1
  exact ⟨fun id link hlink => by simp [start] at hlink, nofun, nofun⟩

theorem Turn.mem_registry_iff (ht : threads.Turn move next) (hmove : move.IsWorkers id)
    {other : Nat} (hne : other ≠ id) : other ∈ next.registry ↔ other ∈ threads.registry := by
  cases hmove with
  | turn =>
    cases ht with
    | serves | exits => rfl
    | leaves => exact List.mem_erase_of_ne hne
  | fails =>
    cases ht with
    | breaks => rfl

theorem Turn.leaves_registry (ht : threads.Turn move next)
    (hr : Registered threads.links threads.registry threads.acceptor) (hmove : move.IsWorkers id)
    (hleaves : Leaves id threads move) : id ∈ threads.registry ∧ id ∉ next.registry := by
  rcases hleaves with ⟨rfl, link, status, hlink, hstage⟩ | ⟨rfl, -⟩
  · refine ⟨(hr.stands id link hlink).registered.mpr (by rw [hstage]; trivial), ?_⟩
    cases ht with
    | serves hother hserving =>
      cases hlink.symm.trans hother
      cases hstage.symm.trans hserving
    | leaves => exact hr.nodup.not_mem_erase
    | exits hother hexiting =>
      cases hlink.symm.trans hother
      cases hstage.symm.trans hexiting
  · cases hmove

/-- **The registry is exact, and no worker is forgotten.** In every state of every run: the registry
names no connection twice, and names those that the accept loop has entered and that no worker, or
failed start of one, has taken out again. A worker's turn changes nothing for other connections, and
the turn in which it takes its own out does so. Every worker that has not exited is one of those
whose handles the accept loop keeps, or is in its hand. So when the accept loop has come to its end,
and when stopping returns after it was woken, the server is done with every connection and the
registry is empty. -/
theorem registry_exact (config : Config) (handler : Handler σ) (state : σ) {moves : List Move}
    {threads : Threads σ} (h : (start config handler state).run moves = some threads) :
    threads.registry.Nodup ∧
      (∀ id, id ∈ threads.registry ↔ Happened (Enters id) (start config handler state) moves ∧
        ¬Happened (Leaves id) (start config handler state) moves) ∧
      (∀ id move next, move.IsWorkers id → threads.step move = some next →
        (∀ other ≠ id, other ∈ next.registry ↔ other ∈ threads.registry) ∧
        (Leaves id threads move → id ∈ threads.registry ∧ id ∉ next.registry)) ∧
      (∀ (id : Nat) (link : Link), threads.links[id]? = some link → link.stage.HasWorker →
        id ∈ threads.handles ∨ threads.acceptor = .keeping id) ∧
      (threads.acceptor = .finished ∨ threads.stopper = .returned →
        threads.registry = [] ∧
          ∀ (id : Nat) (link : Link), threads.links[id]? = some link → link.stage.IsOver) := by
  have hr := registered_of_run h
  have hrecorded := recorded_of_run h rfl (registered_start config handler state)
  have hkept := kept_of_run h
  refine ⟨hr.nodup, fun id => (hrecorded id).registered, fun id move next hmove hstep => ?_,
    hkept.working, fun hend => ?_⟩
  · have ht := turn_of_step hstep
    exact ⟨fun other hne => ht.mem_registry_iff hmove hne, ht.leaves_registry hr hmove⟩
  · have hover := hkept.concluded (hend.elim id hkept.returned)
    refine ⟨List.eq_nil_iff_forall_not_mem.mpr fun id hin => ?_, hover⟩
    have hlink := List.getElem?_eq_getElem (hr.known id hin)
    have hregistered := (hr.stands id _ hlink).registered.mp hin
    exact (hover id _ hlink).not_isRegistered hregistered

/-- A server is stopped while the worker of one connection is about to leave and the accept loop has
another one in its hand. -/
theorem registry_exact_returned :
    let echo : Handler Unit := fun _ request => (.response request.rewind, ())
    let before : List Move := [.connect, .acceptor, .acceptor, .acceptor, .acceptor, .connect,
      .acceptor, .arrive 0 (.ok []), .worker 0]
    let after : List Move := [.stop, .wake true, .acceptor, .worker 0, .worker 0, .acceptor,
      .stopped]
    ∃ mid threads : Threads Unit, (start {} echo ()).run before = some mid ∧
      mid.registry = [0] ∧ Leaves 0 mid (.worker 0) ∧
      (start {} echo ()).run (before ++ after) = some threads ∧ threads.stopper = .returned ∧
      threads.registry = [] ∧
      threads.links.map Link.stage = [.finished .closed, .turnedAway] ∧
      ∀ (id : Nat) (link : Link), threads.links[id]? = some link → link.stage.IsOver := by
  intro echo before after
  have hrun : ∃ mid threads : Threads Unit, (start {} echo ()).run before = some mid ∧
      mid.registry = [0] ∧ Leaves 0 mid (.worker 0) ∧
      (start {} echo ()).run (before ++ after) = some threads ∧ threads.stopper = .returned ∧
      threads.links.map Link.stage = [.finished .closed, .turnedAway] :=
    ⟨_, _, rfl, rfl, .inl ⟨rfl, _, _, rfl, rfl⟩, rfl, rfl, rfl⟩
  obtain ⟨mid, threads, hbefore, hregistry, hleaves, hafter, hreturned, hstages⟩ := hrun
  obtain ⟨hempty, hover⟩ := (registry_exact {} echo () hafter).2.2.2.2 (.inr hreturned)
  exact ⟨mid, threads, hbefore, hregistry, hleaves, hafter, hreturned, hempty, hstages, hover⟩

end Threads

end Parley.Server
