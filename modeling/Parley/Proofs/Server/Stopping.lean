import Parley.Proofs.Server.Registry

/-!
# Stopping a server

Stopping is announced and the registry swept under one lock, and the accept loop looks for the
announcement under the same lock before it enters a connection. So a connection that the loop has
accepted falls on one side or the other: either it is in the registry when the sweep comes, or the
loop finds that the server is stopping.

`Swept` is the invariant behind the sweep: whatever is in the registry has been shut down, and
what was not in the registry yet never comes further than being turned away.

**Theorem (`Threads.stop_misses_nothing`).** From the sweep on, in every state of every run, no
worker waits for a request, nothing enters the registry, and no connection that was not in the
registry at the sweep is ever served.
-/

namespace Parley.Server

variable {σ : Type}

theorem Link.isSome_serveNext {link : Link} (h : link.receiver.ending ≠ none)
    (handler : Handler σ) (state : σ) (refusal : Option (Nat × Failure)) :
    (link.serveNext handler state refusal).isSome := by
  obtain ⟨report, rest, hread⟩ := Receiver.exists_read h
  simp only [serveNext, hread]
  cases report with
  | error error => rfl
  | ok request? =>
    cases request? with
    | none => rfl
    | some request =>
      dsimp only
      split
      · rfl
      · rfl
      · split
        · rfl
        · split <;> rfl

namespace Threads

variable {mid threads next : Threads σ} {id : Nat} {link link' : Link}

/-- A connection that had not come into the registry yet, if it had been accepted at all. -/
def IsLate (mid : Threads σ) (id : Nat) : Prop :=
  ∀ link, mid.links[id]? = some link → link.stage = .accepted

/-- The registry of `mid` has been swept. -/
structure Swept (mid threads : Threads σ) : Prop where
  stopping : threads.stopping = true
  shut : ∀ (id : Nat) (link : Link), threads.links[id]? = some link →
    link.stage.IsRegistered → link.shut = true
  late : ∀ (id : Nat) (link : Link), threads.links[id]? = some link → mid.IsLate id →
    link.stage = .accepted ∨ link.stage = .turnedAway

namespace Swept

theorem set (h : Swept mid threads) (hlinks : next.links = threads.links.set id link')
    (hstopping : next.stopping = threads.stopping) (hlink : threads.links[id]? = some link)
    (hshut : link'.stage.IsRegistered → link'.shut = true)
    (hlate : link.stage = .accepted ∨ link.stage = .turnedAway →
      link'.stage = .accepted ∨ link'.stage = .turnedAway) : Swept mid next where
  stopping := hstopping.trans h.stopping
  shut := hlinks ▸ forall_set hlink hshut fun j _ other hj => h.shut j other hj
  late := hlinks ▸ forall_set (P := fun j other => mid.IsLate j →
      other.stage = .accepted ∨ other.stage = .turnedAway) hlink
    (fun hl => hlate (h.late id link hlink hl)) fun j _ other hj => h.late j other hj

/-- **Every turn leaves the registry swept.** The accept loop cannot enter a connection: it would
have to find that the server is not stopping. -/
theorem turn {move : Move} (h : Swept mid threads)
    (hr : Registered threads.links threads.registry threads.acceptor)
    (ht : threads.Turn move next) : Swept mid next := by
  cases ht with
  | connects | keeps | joins | acceptFails | wakes | detaches | returns =>
    exact ⟨h.stopping, h.shut, h.late⟩
  | accepts _ ha =>
    refine ⟨h.stopping, ?_, ?_⟩
    · exact forall_concat False.elim fun j _ other hj => h.shut j other hj
    · exact forall_concat (fun _ => .inl rfl) fun j _ other hj => h.late j other hj
  | turnsAway _ _ hlink | copyFails _ hlink | startFails _ hlink =>
    exact h.set rfl rfl hlink False.elim fun _ => .inr rfl
  | registers ha hgo hlink => exact absurd (h.stopping.symm.trans hgo) (by decide)
  | @starts id link ha hlink =>
    have hstage := (hr.stands id link hlink).starting.mpr ha
    have hshut := h.shut id link hlink (by rw [hstage]; trivial)
    refine h.set rfl rfl hlink (fun _ => ?_) (by simp [hstage])
    unfold Link.start
    split <;> exact hshut
  | @arrives id link arrival hlink =>
    exact h.set rfl rfl hlink (h.shut id link hlink) (fun hstage => hstage)
  | serves hlink hstage hserve | breaks hlink hstage hserve =>
    have hshut := h.shut _ _ hlink (by rw [hstage]; trivial)
    refine h.set rfl rfl hlink (fun _ => ?_) (by simp [hstage])
    exact (Link.serveNext_stage hserve hstage).2.1.trans hshut
  | leaves hlink hstage => exact h.set rfl rfl hlink False.elim (by simp [hstage])
  | exits hlink hstage => exact h.set rfl rfl hlink False.elim (by simp [hstage])
  | stops =>
    refine ⟨rfl, fun id link hlink hin => ?_, fun id link hlink hlate => ?_⟩
    · obtain ⟨old, hold, rfl⟩ := getElem?_announceStop hlink
      split
      · rfl
      · next hnot =>
        rw [if_neg hnot] at hin
        exact h.shut id old hold hin
    · obtain ⟨old, hold, rfl⟩ := getElem?_announceStop hlink
      split
      · exact h.late id old hold hlate
      · exact h.late id old hold hlate

end Swept

/-- **The sweep.** -/
theorem swept_announceStop (h : Registered mid.links mid.registry mid.acceptor) :
    Swept mid mid.announceStop where
  stopping := rfl
  shut id link hlink hin := by
    obtain ⟨old, hold, rfl⟩ := getElem?_announceStop hlink
    split
    · rfl
    · next hnot =>
      rw [if_neg hnot] at hin
      exact absurd ((h.stands id old hold).registered.mpr hin) hnot
  late id link hlink hlate := by
    obtain ⟨old, hold, rfl⟩ := getElem?_announceStop hlink
    split
    · exact .inl (hlate old hold)
    · exact .inl (hlate old hold)

theorem Turn.registry_sublist {move : Move} (ht : threads.Turn move next)
    (hstop : threads.stopping = true) : next.registry.Sublist threads.registry := by
  cases ht with
  | registers ha hgo hlink => exact absurd (hstop.symm.trans hgo) (by decide)
  | leaves | startFails => exact List.erase_sublist
  | _ => exact List.Sublist.refl _

/-- **The worker of an ended connection** can take its turn. -/
theorem isSome_workerTurn (hlink : threads.links[id]? = some link)
    (hserving : link.stage = .serving) (hended : link.receiver.ending ≠ none) :
    (threads.step (.worker id)).isSome := by
  have hturn := Link.isSome_serveNext hended threads.handler threads.state none
  obtain ⟨⟨link', state⟩, hserve⟩ := Option.isSome_iff_exists.mp hturn
  simp [step, workerTurn, hlink, hserving, hserve]

/-- **The loop turns away** the connection that it has in hand when the server is stopping. -/
theorem exists_turnedAway (hlink : threads.links[id]? = some link)
    (ha : threads.acceptor = .admitting id) (hstop : threads.stopping = true) :
    ∃ next, threads.step .acceptor = some next ∧
      next.links[id]? = some { link with stage := .turnedAway } := by
  refine ⟨{ threads.setLink id { link with stage := .turnedAway } with acceptor := .joining },
    ?_, List.getElem?_set_self (List.getElem?_eq_some_iff.mp hlink).1⟩
  simp [step, acceptorTurn, ha, hlink, hstop]

/-- **Stopping misses nothing.** Let the registry of a running server be swept, and the run go on
in any way. A connection that is in the registry or still served has been shut down, so its worker
need not wait; no turn enters a connection in the registry; and a connection that had not come into
it before the sweep is given up without a request handled or a byte sent, if only by the next
turn of the accept loop. -/
theorem stop_misses_nothing (config : Config) (handler : Handler σ) (state : σ)
    {before after : List Move} {mid swept threads : Threads σ}
    (hbefore : (start config handler state).run before = some mid)
    (hstop : mid.step .stop = some swept) (hafter : swept.run after = some threads) :
    (∀ id link, threads.links[id]? = some link →
      id ∈ threads.registry ∨ link.stage = .serving →
        link.shut = true ∧ (link.stage = .serving → (threads.step (.worker id)).isSome)) ∧
    (∀ move next, threads.step move = some next → next.registry.Sublist threads.registry) ∧
    ∀ id link, threads.links[id]? = some link → mid.IsLate id →
      link.requests = [] ∧ link.sent = [] ∧
        (link.stage = .turnedAway ∨ link.stage = .accepted ∧
          ∃ next, threads.step .acceptor = some next ∧
            next.links[id]? = some { link with stage := .turnedAway }) := by
  have hmid := registered_of_run hbefore
  obtain rfl : swept = mid.announceStop := by
    cases turn_of_step hstop
    rfl
  obtain ⟨hregistered, hswept⟩ := run_turn (P := fun threads =>
      Registered threads.links threads.registry threads.acceptor ∧ Swept mid threads)
    (fun h ht => ⟨h.1.turn ht, h.2.turn h.1 ht⟩)
    ⟨hmid.turn (turn_of_step hstop), swept_announceStop hmid⟩ hafter
  refine ⟨fun id link hlink hin => ?_, fun move next hstep => ?_, fun id link hlink hlate => ?_⟩
  · have hstands := hregistered.stands id link hlink
    have hshut : link.shut = true := by
      refine hswept.shut id link hlink ?_
      rcases hin with hin | hserving
      · exact hstands.registered.mp hin
      · rw [hserving]
        trivial
    refine ⟨hshut, fun hserving => ?_⟩
    exact isSome_workerTurn hlink hserving (hstands.shut hshut)
  · exact (turn_of_step hstep).registry_sublist hswept.stopping
  · have hstands := hregistered.stands id link hlink
    rcases hswept.late id link hlink hlate with hstage | hstage
    · obtain ⟨hrequests, hsent⟩ := hstands.idle (by rw [hstage]; trivial)
      have ha := hstands.admitting.mp hstage
      exact ⟨hrequests, hsent, .inr ⟨hstage, exists_turnedAway hlink ha hswept.stopping⟩⟩
    · obtain ⟨hrequests, hsent⟩ := hstands.idle (by rw [hstage]; trivial)
      exact ⟨hrequests, hsent, .inl hstage⟩

/-- The server is stopped while the first of two connections is served and the accept loop has the
second in hand. -/
theorem stop_misses_nothing_in_hand :
    let echo : Handler Unit := fun _ request => (.response request.rewind, ())
    let before : List Move := [.connect, .acceptor, .acceptor, .acceptor, .acceptor, .connect,
      .acceptor]
    ∃ mid swept : Threads Unit, (start {} echo ()).run before = some mid ∧
      mid.step .stop = some swept ∧ swept.run [] = some swept ∧
      (∃ link, swept.links[0]? = some link ∧ link.stage = .serving ∧ link.shut = true ∧
        (swept.step (.worker 0)).isSome) ∧
      ∃ link, swept.links[1]? = some link ∧ link.stage = .accepted ∧ link.requests = [] ∧
        ∃ next, swept.step .acceptor = some next ∧
          next.links[1]? = some { link with stage := .turnedAway } := by
  intro echo before
  let first : Link := { stage := .serving, receiver := { max := Config.maxFrameSize {} } }
  let second : Link := { receiver := { max := Config.maxFrameSize {} } }
  let mid : Threads Unit := { start {} echo () with
    links := [first, second], registry := [0], handles := [0], acceptor := .admitting 1 }
  have hbefore : (start {} echo ()).run before = some mid := rfl
  have hstop : mid.step .stop = some mid.announceStop := rfl
  have hafter : mid.announceStop.run [] = some mid.announceStop := rfl
  obtain ⟨hserved, -, hlate⟩ := stop_misses_nothing {} echo () hbefore hstop hafter
  refine ⟨mid, mid.announceStop, hbefore, hstop, rfl, ⟨first.shutDown, rfl, rfl, ?_⟩,
    second, rfl, rfl, ?_⟩
  · obtain ⟨hshut, hturn⟩ := hserved 0 first.shutDown rfl (.inr rfl)
    exact ⟨hshut, hturn rfl⟩
  · have hnew : mid.IsLate 1 := by
      intro link hlink
      cases hlink
      rfl
    obtain ⟨hrequests, -, hstage⟩ := hlate 1 second rfl hnew
    rcases hstage with haway | ⟨-, hnext⟩
    · cases haway
    · exact ⟨hrequests, hnext⟩

end Threads

end Parley.Server
