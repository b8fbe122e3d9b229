import Parley.Proofs.Server.Advance

/-!
# Connections do not interfere

The workers of a server share its handler, what this keeps, the registry and the accept loop. Still
nothing of a connection shows on another one, as long as the handler is a function of its request
and the server is not stopped.

**Theorem (`Crew.isolated`).** Take two runs of servers that agree on one connection: on the bytes
that its other end sends and the way in which they stop, in whatever pieces they come, on whether
its socket can be set up, and on how much of what is written it takes. The other connections, their
number and order, everything that happens at them, what the handler keeps and the order of all turns
may be different. Then the server sends the same on it in both runs and ends it in the same way.
-/

namespace Parley.Server

variable {σ : Type}

/-- Two other ends send the same bytes, stop in the same way, and take as much. -/
structure Peer.Agrees (peer other : Peer) : Prop where
  data : Arrivals.data peer.script = Arrivals.data other.script
  stop : Arrivals.stop? peer.script = Arrivals.stop? other.script
  opening : peer.opening = other.opening
  refusal : peer.refusal = other.refusal

/-- The fate of a connection does not depend on the pieces in which its bytes come. -/
theorem Peer.Agrees.fate_eq {peer other : Peer} (h : peer.Agrees other) (config : Config)
    (reply : Message → Reply) : peer.fate config reply = other.fate config reply := by
  simp only [fate, prospect, service, h.data, h.stop, h.opening, h.refusal]

namespace Crew

variable {config : Config} {reply : Message → Reply} {peers : Nat → Peer} {crew : Crew σ}
  {id : Nat} {link : Link}

/-- The connection has come a part of the way to its fate, or to the end of it, and comes to it in
any case, unless it was turned away. -/
structure Bears (crew : Crew σ) (id : Nat) (link : Link) (fate : Fate) : Prop where
  isPrefix : link.sent <+: fate.sent
  ended : ∀ status, link.stage.status? = some status → fate = ⟨link.sent, status⟩
  comes : link.stage ≠ .turnedAway → Inevitable (Advances id) (Comes id fate) crew

theorem Kept.bears (h : Kept config reply peers crew)
    (hlink : crew.threads.links[id]? = some link) :
    crew.Bears id link ((peers id).fate config reply) where
  isPrefix := (h.tracks id link hlink).1.isPrefix
  ended _ hs := ((h.tracks id link hlink).1.of_status? hs).1
  comes := h.inevitable hlink

/-- **Connections are isolated.** Let two runs agree on one connection, and let neither server be
stopped. What has been sent on the connection in one run is a part of what has been sent in the
other; where it has ended in both, it has been sent the same and has ended in the same way. There is
one fate that it comes to in both, whatever happens elsewhere, unless it is turned away, and nobody
is turned away if the system refuses the accept loop nothing. -/
theorem isolated {handler : Handler σ} (hc : handler.Computes reply) (config : Config)
    {peers peers' : Nat → Peer} (id id' : Nat) (hpeer : (peers id).Agrees (peers' id'))
    {state state' : σ} {moves moves' : List Move} {crew crew' : Crew σ}
    (hrun : (start config handler state peers).run moves = some crew)
    (hrun' : (start config handler state' peers').run moves' = some crew')
    (hstop : .turn .stop ∉ moves) (hstop' : .turn .stop ∉ moves') {link link' : Link}
    (hlink : crew.threads.links[id]? = some link)
    (hlink' : crew'.threads.links[id']? = some link') :
    (link.sent <+: link'.sent ∨ link'.sent <+: link.sent) ∧
      (∀ status status', link.stage.status? = some status → link'.stage.status? = some status' →
        link.sent = link'.sent ∧ status = status') ∧
      (∃ fate, crew.Bears id link fate ∧ crew'.Bears id' link' fate) ∧
      (.turn .acceptorFails ∉ moves → link.stage ≠ .turnedAway) ∧
      (.turn .acceptorFails ∉ moves' → link'.stage ≠ .turnedAway) := by
  have hbears := (kept_of_run hc hrun hstop).bears hlink
  have hbears' := (kept_of_run hc hrun' hstop').bears hlink'
  rw [← hpeer.fate_eq] at hbears'
  refine ⟨?_, fun status status' hs hs' => ?_, ⟨_, hbears, hbears'⟩, ?_, ?_⟩
  · exact List.prefix_or_prefix_of_prefix hbears.isPrefix hbears'.isPrefix
  · have heq := (hbears.ended status hs).symm.trans (hbears'.ended status' hs')
    exact Fate.mk.inj heq
  · exact fun hfails => not_turnedAway_of_run hc hrun hstop hfails id link hlink
  · exact fun hfails => not_turnedAway_of_run hc hrun' hstop' hfails id' link' hlink'

/-- A connection that is served to its end, alone and in one piece, and the same bytes in pieces
behind a connection that is dropped for an oversized frame. -/
theorem isolated_oversized :
    let config : Config := { bufferCapacity := 4, maxFrameSize := 4 }
    let echo : Handler Nat := fun count request => (.response request, count + 1)
    let moves : List Move :=
      [.turn .connect, .turn .acceptor, .turn .acceptor, .turn .acceptor, .work 0 .begin,
        .work 0 .read, .work 0 .pump, .work 0 .owner, .work 0 (.push 9), .work 0 (.push 9),
        .work 0 .read, .work 0 .pump, .work 0 .owner, .work 0 .owner, .work 0 .owner,
        .work 0 .owner, .work 0 .owner, .turn (.worker 0)]
    let moves' : List Move :=
      [.turn .connect, .turn .connect, .turn .acceptor, .turn .acceptor, .turn .acceptor,
        .turn .acceptor, .turn .acceptor, .turn .acceptor, .turn .acceptor, .work 0 .begin,
        .work 1 .begin, .work 1 .read, .work 0 .read, .work 0 .pump, .work 0 .owner,
        .work 0 .owner, .work 1 .pump, .work 0 .owner, .work 0 .readEnd, .work 0 .pump,
        .work 0 .owner]
    ∃ whole pieces oversized : Peer, whole.script = [.ok [0, 0, 0, 0], .ok []] ∧
      pieces.script = [.ok [0], .ok [0, 0, 0], .ok []] ∧ whole.Agrees pieces ∧
      oversized.script = [.ok [255, 255, 255, 255]] ∧ ∃ crew crew' link other,
        (start config echo 0 fun _ => whole).run moves = some crew ∧
        crew.threads.links[0]? = some link ∧ link.stage = .exiting .closed ∧
        (start config echo 7 fun id => if id = 0 then oversized else pieces).run moves' =
          some crew' ∧
        crew'.threads.links[0]? = some other ∧
        other.stage = .leaving (.dropped (.frame (.tooLarge 4294967295 4))) ∧
        Inevitable (Advances 1) (Comes 1 ⟨[0, 0, 0, 0], .closed⟩) crew' := by
  intro config echo moves moves'
  let whole : Peer := {
    script := [.ok [0, 0, 0, 0], .ok []]
    feasible := by simp [Transport.pumpSize]
    lasting := by simp }
  let pieces : Peer := {
    script := [.ok [0], .ok [0, 0, 0], .ok []]
    feasible := by simp [Transport.pumpSize]
    lasting := by simp }
  let oversized : Peer := {
    script := [.ok [255, 255, 255, 255]]
    feasible := by simp [Transport.pumpSize]
    lasting := by simp }
  have hagrees : whole.Agrees pieces := ⟨rfl, rfl, rfl, rfl⟩
  refine ⟨whole, pieces, oversized, rfl, rfl, hagrees, rfl, ?_⟩
  have hcomputes : echo.Computes .response := fun _ _ => rfl
  have hrun : ((start config echo 0 fun _ => whole).run moves).map
      (fun crew => crew.threads.links.map fun link => (link.stage, link.sent)) =
      some [(.exiting .closed, [0, 0, 0, 0])] := by cbv
  have hrun' : ((start config echo 7 fun id => if id = 0 then oversized else pieces).run
      moves').map (fun crew => crew.threads.links.map fun link => (link.stage, link.sent)) =
      some [(.leaving (.dropped (.frame (.tooLarge 4294967295 4))), []), (.serving, [])] := by cbv
  obtain ⟨crew, hrun, hlinks⟩ := Option.map_eq_some_iff.mp hrun
  obtain ⟨crew', hrun', hlinks'⟩ := Option.map_eq_some_iff.mp hrun'
  obtain ⟨link, hlinks, hlink⟩ := List.map_eq_singleton_iff.mp hlinks
  obtain ⟨other, rest, hlinks', hother, hrest⟩ := List.map_eq_cons_iff.mp hlinks'
  obtain ⟨link', rfl, hlink'⟩ := List.map_eq_singleton_iff.mp hrest
  obtain ⟨hstage, hsent⟩ := Prod.mk.inj hlink
  have hfirst : crew.threads.links[0]? = some link := by rw [hlinks]; rfl
  have hsecond : crew'.threads.links[1]? = some link' := by rw [hlinks']; rfl
  obtain ⟨-, -, ⟨fate, hbears, hbears'⟩, -, -⟩ := isolated hcomputes config 0 1 hagrees
    hrun hrun' (by simp [moves]) (by simp [moves']) hfirst hsecond
  have hfate := hbears.ended .closed (by rw [hstage]; rfl)
  rw [hsent] at hfate
  refine ⟨crew, crew', link, other, hrun, hfirst, hstage, hrun', ?_, (Prod.mk.inj hother).1, ?_⟩
  · rw [hlinks']
    rfl
  · rw [← hfate]
    refine hbears'.comes ?_
    rw [(Prod.mk.inj hlink').1]
    decide

end Crew

end Parley.Server
