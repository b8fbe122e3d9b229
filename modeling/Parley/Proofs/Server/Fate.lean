import Parley.Proofs.Server.Crew

/-!
# What a connection comes to

What a server sends on a connection, and how it ends it, is settled at the other end: by the bytes
that come from there, by the way in which they stop, and by a socket that cannot be set up or does
not take all that is written. `Peer.fate` says what this comes to.

**The invariant.** `Track` says how far a connection is on its way there. Before it has a worker
nothing has been sent. A worker in service is bound for what serving all the bytes comes to, or has
been refused a write and gives the connection up (`Post.Bound`). A connection that has left the
service has come to its fate. A move about the connection keeps this, whatever the other workers
have made of what the handler keeps (`Track.stride`).
-/

namespace Parley

variable {σ : Type}

/-- A worker that is refused a write was to send more, and gives the connection up. -/
theorem Worker.Served.refused {capacity : Nat} {prospect : Prospect} {worker : Worker σ}
    {script : Arrivals} {written left : List UInt8}
    (h : Served capacity prospect ⟨worker, script, written⟩)
    (hs : worker.serving = .writing left) (hne : left ≠ []) {status : ServiceStatus}
    (hended : status ≠ .waiting) :
    written <+: prospect.sent ∧ written.length < prospect.sent.length ∧
      Off capacity ⟨prospect.stops, written, worker.handled, status⟩
        ⟨worker.quit status, script, written⟩ := by
  rcases h with ⟨more, hon⟩ | hoff
  · obtain ⟨rest, later, -, hsent, -⟩ := hon.serves
    have hfits := hon.fits
    simp only [hs, Serving.left, List.append_assoc] at hsent hfits
    have hpos := List.length_pos_iff.mpr hne
    refine ⟨⟨_, hsent.symm⟩, ?_, ?_⟩
    · rw [hsent, List.length_append, List.length_append]
      omega
    · exact off_quit hon.awaits.live hfits hended rfl rfl
  · rcases hoff.ends with hends | hends
    · cases hs.symm.trans hends
    · cases hs.symm.trans hends

namespace Server

/-! ## The fate of a connection -/

/-- What the server sends on a connection, and what its service comes to. -/
structure Fate where
  sent : List UInt8
  status : ServiceStatus

/-- What it comes to at a socket that takes so many bytes. -/
def Fate.limited (fate : Fate) : Option (Nat × Failure) → Fate
  | none => fate
  | some (limit, failure) =>
    if fate.sent.length ≤ limit then fate
    else ⟨fate.sent.take limit, .dropped (.frame (.failed failure))⟩

theorem Fate.limited_of_le {fate : Fate} {refusal : Option (Nat × Failure)}
    (h : ∀ limit failure, refusal = some (limit, failure) → fate.sent.length ≤ limit) :
    fate.limited refusal = fate := by
  cases refusal with
  | none => rfl
  | some entry => exact if_pos (h entry.1 entry.2 rfl)

theorem Fate.limited_of_lt {fate : Fate} {limit : Nat} {failure : Failure}
    (h : limit < fate.sent.length) : fate.limited (some (limit, failure)) =
      ⟨fate.sent.take limit, .dropped (.frame (.failed failure))⟩ :=
  if_neg (Nat.not_le.mpr h)

theorem Fate.prefix_limited {fate : Fate} {refusal : Option (Nat × Failure)} {sent : List UInt8}
    (h : sent <+: fate.sent)
    (hlimit : ∀ limit failure, refusal = some (limit, failure) → sent.length ≤ limit) :
    sent <+: (fate.limited refusal).sent := by
  match refusal with
  | none => exact h
  | some (limit, failure) =>
    rcases Nat.lt_or_ge limit fate.sent.length with hlt | hle
    · rw [limited_of_lt hlt]
      exact List.prefix_take_iff.mpr ⟨h, hlimit limit failure rfl⟩
    · rw [limited_of_le]
      · exact h
      · intro limit failure heq
        cases heq
        exact hle

namespace Peer

variable (peer : Peer) (config : Config) (reply : Message → Reply)

/-- Serving all that comes from the other end. -/
def service : Service Unit :=
  serve (.ofFunction reply) () {
    max := config.maxFrameSize
    pending := Arrivals.data peer.script
    ending := Arrivals.stop? peer.script }

def prospect : Worker.Prospect :=
  let service := peer.service config reply
  ⟨(Arrivals.stop? peer.script).isSome, service.sent, service.handled, service.status⟩

/-- **What a connection comes to** by its other end alone. -/
def fate : Fate :=
  match Transport.setUp config, peer.opening with
  | .error error, _ => ⟨[], .dropped error⟩
  | .ok (), some failure => ⟨[], .dropped (.failed failure)⟩
  | .ok (), none =>
    Fate.limited ⟨(peer.prospect config reply).sent, (peer.prospect config reply).status⟩
      peer.refusal

variable {config}

theorem fate_of_error {error : TransportError} (h : Transport.setUp config = .error error) :
    peer.fate config reply = ⟨[], .dropped error⟩ := by
  simp only [fate, h]

theorem fate_of_opening {failure : Failure} (h : Transport.setUp config = .ok ())
    (ho : peer.opening = some failure) :
    peer.fate config reply = ⟨[], .dropped (.failed failure)⟩ := by
  simp only [fate, h, ho]

theorem fate_of_setUp (h : Transport.setUp config = .ok ()) (ho : peer.opening = none) :
    peer.fate config reply =
      Fate.limited ⟨(peer.prospect config reply).sent, (peer.prospect config reply).status⟩
        peer.refusal := by
  simp only [fate, h, ho]

end Peer

/-! ## A worker on its way -/

section Bound

variable {config : Config} {reply : Message → Reply} {peer : Peer} {sent bytes : List UInt8}
  {post post' : Post σ}

/-- The worker goes on to what serving all the bytes comes to, and is within what the socket takes;
or nothing is left to be sent, because that was all or the socket takes no more. -/
structure Post.Bound (config : Config) (reply : Message → Reply) (peer : Peer)
    (sent : List UInt8) (post : Post σ) : Prop where
  setUp : Transport.setUp config = .ok ()
  opening : peer.opening = none
  computes : post.worker.handler.Computes reply
  way : (Worker.Served config.bufferCapacity (peer.prospect config reply)
        ⟨post.worker, post.script, sent⟩ ∧
      ∀ limit failure, peer.refusal = some (limit, failure) → sent.length ≤ limit) ∨
    ∃ stops handled, Worker.Off config.bufferCapacity
      ⟨stops, (peer.fate config reply).sent, handled, (peer.fate config reply).status⟩
      ⟨post.worker, post.script, sent⟩

theorem Post.bound_ofConfig? {handler : Handler σ} {state : σ} {worker : Worker σ}
    (hc : handler.Computes reply) (hw : Worker.ofConfig? handler state config = some worker)
    (hsetup : Transport.setUp config = .ok ()) (ho : peer.opening = none) :
    Post.Bound config reply peer [] ⟨worker, peer.script⟩ where
  setUp := hsetup
  opening := ho
  computes := by
    obtain ⟨intake, -, rfl⟩ := Option.map_eq_some_iff.mp hw
    exact hc
  way := by
    obtain ⟨transcript, ht⟩ := exists_transcript config.maxFrameSize
      (Arrivals.stop? peer.script) (Arrivals.data peer.script)
    obtain ⟨sent, handled, status, hserves⟩ := exists_serves (.ofFunction reply)
      config.maxFrameSize (Arrivals.stop? peer.script).isSome () ht.not_mem_end
    obtain ⟨rfl, rfl, rfl⟩ : (peer.service config reply).Comes sent handled status :=
      serve_eq ht hserves
    have hserves' := hserves.of_computes (Handler.computes_ofFunction reply) hc state
    exact .inl ⟨Worker.served_ofConfig? hw peer.feasible ht hserves', fun _ _ _ => Nat.zero_le _⟩

/-- How many bytes the socket of a connection still takes. -/
def Peer.room (peer : Peer) (sent : List UInt8) : Option (Nat × Failure) :=
  peer.refusal.map fun (limit, failure) => (limit - sent.length, failure)

theorem Link.room_eq {link : Link} (hshut : link.shut = false) :
    link.room peer = peer.room link.sent := by
  simp [room, Peer.room, hshut]

/-- It does not matter what the other workers have made of what the handler keeps. -/
theorem Post.Bound.resume (h : post.Bound config reply peer sent) (state : σ) :
    (post.resume state).Bound config reply peer sent where
  setUp := h.setUp
  opening := h.opening
  computes := h.computes
  way := by
    rcases h.way with ⟨hserved, hlimit⟩ | ⟨stops, handled, hoff⟩
    · exact .inl ⟨hserved.exchange h.computes state, hlimit⟩
    · exact .inr ⟨stops, handled, hoff.exchange state⟩

/-- **What happens at a connection in service leaves its worker on its way.** -/
theorem Post.Bound.turn (h : post.Bound config reply peer sent) {deed : Deed}
    (ht : post.Turn false (peer.room sent) deed post' bytes) :
    post'.Bound config reply peer (sent ++ bytes) := by
  obtain ⟨worker, script⟩ := post
  cases ht with
  | @moves _ move _ script bytes hscript hstep _ hroom =>
    cases hscript
    have hsame := (Worker.exchange_step _ h.computes hstep).1
    refine ⟨h.setUp, h.opening, hsame ▸ h.computes, ?_⟩
    rcases h.way with ⟨hserved, hlimit⟩ | ⟨stops, handled, hoff⟩
    · refine .inl ⟨hserved.step hstep, fun limit failure heq => ?_⟩
      have hle := hlimit limit failure heq
      have hbytes := hroom (limit - sent.length) failure (by rw [Peer.room, heq]; rfl)
      rw [List.length_append]
      omega
    · exact .inr ⟨stops, handled, hoff.step hstep⟩
  | ends hshut harrive =>
    refine ⟨h.setUp, h.opening, h.computes, ?_⟩
    rw [List.append_nil]
    rcases h.way with ⟨hserved, hlimit⟩ | ⟨stops, handled, hoff⟩
    · exact .inl ⟨hserved.shut (by simpa using hshut) harrive, hlimit⟩
    · exact .inr ⟨stops, handled, hoff.shut harrive⟩
  | @refused left n failure hs hne hroom =>
    refine ⟨h.setUp, h.opening, h.computes, .inr ?_⟩
    rw [List.append_nil]
    rcases h.way with ⟨hserved, hlimit⟩ | ⟨stops, handled, hoff⟩
    · obtain ⟨⟨limit, failure'⟩, hrefusal, heq⟩ := Option.map_eq_some_iff.mp hroom
      obtain ⟨hroom, rfl⟩ := Prod.mk.inj heq
      have hlimit := hlimit limit failure' hrefusal
      obtain rfl : limit = sent.length := by omega
      have hended : ServiceStatus.dropped (.frame (.failed failure')) ≠ .waiting := nofun
      obtain ⟨hpart, hlt, hoff⟩ := hserved.refused hs hne hended
      refine ⟨(peer.prospect config reply).stops, worker.handled, ?_⟩
      rw [peer.fate_of_setUp reply h.setUp h.opening, hrefusal, Fate.limited_of_lt hlt,
        ← List.prefix_iff_eq_take.mp hpart]
      exact hoff
    · rcases hoff.ends with hends | hends
      · cases hs.symm.trans hends
      · cases hs.symm.trans hends

theorem Post.Bound.isPrefix (h : post.Bound config reply peer sent) :
    sent <+: (peer.fate config reply).sent := by
  rcases h.way with ⟨hserved, hlimit⟩ | ⟨stops, handled, hoff⟩
  · rw [peer.fate_of_setUp reply h.setUp h.opening]
    exact Fate.prefix_limited hserved.so_far.1 hlimit
  · have hsent : sent = (peer.fate config reply).sent := hoff.sent
    exact hsent ▸ List.prefix_refl _

theorem Post.Bound.of_done (h : post.Bound config reply peer sent) {status : ServiceStatus}
    (hdone : post.worker.serving = .done status) :
    peer.fate config reply = ⟨sent, status⟩ ∧ status ≠ .waiting := by
  rcases h.way with ⟨hserved, hlimit⟩ | ⟨stops, handled, hoff⟩
  · obtain ⟨rfl, hsent, -⟩ := hserved.so_far.2.2.2 status (.inr hdone)
    have hsent : sent = (peer.prospect config reply).sent := hsent
    refine ⟨?_, hserved.ne_waiting hdone⟩
    rw [peer.fate_of_setUp reply h.setUp h.opening, ← hsent, Fate.limited_of_le hlimit]
  · have hsent : sent = (peer.fate config reply).sent := hoff.sent
    rcases hoff.ends with hends | hends
    · cases hdone.symm.trans hends
    · cases hdone.symm.trans hends
      exact ⟨congrArg (Fate.mk · _) hsent.symm, hoff.ended⟩

end Bound

/-! ## A connection on its way -/

/-- What the service of a connection has come to, once it is over. -/
def Stage.status? : Stage → Option ServiceStatus
  | leaving status | exiting status | finished status => some status
  | accepted | registered | serving | turnedAway => none

theorem Stage.not_isIdle_of_status? {stage : Stage} {status : ServiceStatus}
    (h : stage.status? = some status) : ¬stage.IsIdle := by
  cases stage with
  | leaving | exiting | finished => exact not_false
  | accepted | registered | serving | turnedAway => cases h

/-- How far a connection is on the way to its fate, with its worker. -/
inductive Track (config : Config) (reply : Message → Reply) (peer : Peer) :
    Link → Option (Post σ) → Prop
  | waits {link : Link} (hstage : link.stage.IsIdle) (hsent : link.sent = []) :
    Track config reply peer link none
  | begins {link : Link} (hstage : link.stage = .serving)
      (hsetup : Transport.setUp config = .ok ()) (hsent : link.sent = []) :
    Track config reply peer link none
  | serves {link : Link} {post : Post σ} (hstage : link.stage = .serving)
      (hbusy : ∀ status, post.worker.serving ≠ .done status)
      (hbound : post.Bound config reply peer link.sent) : Track config reply peer link (some post)
  | ended {link : Link} {post : Option (Post σ)} {status : ServiceStatus}
      (hstage : link.stage.status? = some status)
      (hfate : peer.fate config reply = ⟨link.sent, status⟩) (hended : status ≠ .waiting) :
    Track config reply peer link post

namespace Track

variable {config : Config} {reply : Message → Reply} {peer : Peer} {link link' : Link}
  {post post' : Option (Post σ)}

theorem of_isIdle (h : Track config reply peer link post) (hs : link.stage.IsIdle) :
    post = none ∧ link.sent = [] := by
  cases h with
  | waits _ hsent => exact ⟨rfl, hsent⟩
  | begins hstage | serves hstage => rw [hstage] at hs; cases hs
  | ended hstage => exact absurd hs (Stage.not_isIdle_of_status? hstage)

theorem of_serving (h : Track config reply peer link post) (hs : link.stage = .serving) :
    (post = none ∧ Transport.setUp config = .ok () ∧ link.sent = []) ∨
      ∃ worker, post = some worker ∧ (∀ status, worker.worker.serving ≠ .done status) ∧
        worker.Bound config reply peer link.sent := by
  cases h with
  | waits hstage => rw [hs] at hstage; cases hstage
  | begins _ hsetup hsent => exact .inl ⟨rfl, hsetup, hsent⟩
  | serves _ hbusy hbound => exact .inr ⟨_, rfl, hbusy, hbound⟩
  | ended hstage => rw [hs] at hstage; cases hstage

theorem of_status? (h : Track config reply peer link post) {status : ServiceStatus}
    (hs : link.stage.status? = some status) :
    peer.fate config reply = ⟨link.sent, status⟩ ∧ status ≠ .waiting := by
  cases h with
  | waits hstage => exact absurd hstage (Stage.not_isIdle_of_status? hs)
  | begins hstage | serves hstage => rw [hstage] at hs; cases hs
  | ended hstage hfate hended =>
    cases hs.symm.trans hstage
    exact ⟨hfate, hended⟩

theorem isPrefix (h : Track config reply peer link post) :
    link.sent <+: (peer.fate config reply).sent := by
  cases h with
  | waits _ hsent | begins _ _ hsent => rw [hsent]; exact List.nil_prefix
  | serves _ _ hbound => exact hbound.isPrefix
  | ended _ hfate => exact hfate ▸ List.prefix_refl _

/-- **A move about the connection keeps it on its way.** -/
theorem stride {crew : Crew σ} {id : Nat} {move : Crew.Move}
    (h : Track crew.threads.config reply (crew.peers id) link (crew.posts id))
    (hc : crew.threads.handler.Computes reply) (hshut : link.shut = false)
    (hs : crew.Stride id link move link' post') :
    Track crew.threads.config reply (crew.peers id) link' post' ∧ link'.shut = false := by
  cases hs with
  | registers hs =>
    obtain ⟨hpost, hsent⟩ := h.of_isIdle (by rw [hs]; trivial)
    rw [hpost]
    exact ⟨.waits trivial hsent, hshut⟩
  | givesUp hs =>
    obtain ⟨hpost, hsent⟩ := h.of_isIdle hs
    rw [hpost]
    exact ⟨.waits trivial hsent, hshut⟩
  | starts hs =>
    obtain ⟨hpost, hsent⟩ := h.of_isIdle (by rw [hs]; trivial)
    rw [hpost]
    unfold Link.start
    split
    · next hsetup => exact ⟨.begins rfl hsetup hsent, hshut⟩
    · next error herror =>
      have hfate := (crew.peers id).fate_of_error reply herror
      rw [← hsent] at hfate
      exact ⟨.ended rfl hfate nofun, hshut⟩
  | opens hs hpost hopening hworker =>
    rcases h.of_serving hs with ⟨-, hsetup, hsent⟩ | ⟨_, hpost', -⟩
    · have hbound := Post.bound_ofConfig? hc hworker hsetup hopening
      rw [← hsent] at hbound
      refine ⟨.serves hs (fun status hdone => ?_) hbound, hshut⟩
      obtain ⟨intake, -, rfl⟩ := Option.map_eq_some_iff.mp hworker
      cases hdone
    · cases hpost.symm.trans hpost'
  | fails hs hpost hopening =>
    rcases h.of_serving hs with ⟨-, hsetup, hsent⟩ | ⟨_, hpost', -⟩
    · have hfate := (crew.peers id).fate_of_opening reply hsetup hopening
      rw [← hsent] at hfate
      exact ⟨.ended rfl hfate nofun, hshut⟩
    · cases hpost.symm.trans hpost'
  | @works deed _ post' bytes hs hpost ht =>
    rcases h.of_serving hs with ⟨hpost', -⟩ | ⟨post, hpost', -, hbound⟩
    · cases hpost.symm.trans hpost'
    · cases hpost.symm.trans hpost'
      rw [hshut, Link.room_eq hshut] at ht
      have hnext := (hbound.resume crew.threads.state).turn ht
      rcases link.follow_stage post'.worker bytes with ⟨status, hdone, hstage⟩ | ⟨hbusy, hstage⟩
      · obtain ⟨hfate, hended⟩ := hnext.of_done hdone
        exact ⟨.ended (by rw [hstage]; rfl) hfate hended, hshut⟩
      · exact ⟨.serves hstage hbusy hnext, hshut⟩
  | leaves hs =>
    obtain ⟨hfate, hended⟩ := h.of_status? (by rw [hs]; rfl)
    exact ⟨.ended rfl hfate hended, hshut⟩
  | exits hs =>
    obtain ⟨hfate, hended⟩ := h.of_status? (by rw [hs]; rfl)
    exact ⟨.ended rfl hfate hended, hshut⟩

end Track

/-! ## All connections -/

namespace Crew

variable {config : Config} {reply : Message → Reply} {peers : Nat → Peer} {crew next : Crew σ}
  {move : Move}

/-- The server has not been stopped, and each of its connections is on its way. -/
structure Kept (config : Config) (reply : Message → Reply) (peers : Nat → Peer) (crew : Crew σ) :
    Prop where
  registered : crew.Registered
  running : crew.threads.stopping = false
  settings : crew.threads.config = config
  computes : crew.threads.handler.Computes reply
  meets : crew.peers = peers
  vacant : ∀ id, crew.threads.links.length ≤ id → crew.posts id = none
  tracks : ∀ (id : Nat) (link : Link), crew.threads.links[id]? = some link →
    Track config reply (peers id) link (crew.posts id) ∧ link.shut = false

/-- What no turn changes, except for the one that stops the server. -/
theorem same_turn (ht : crew.Turn move next) (hstop : move ≠ .turn .stop) :
    next.threads.config = crew.threads.config ∧ next.threads.handler = crew.threads.handler ∧
      next.peers = crew.peers ∧ next.threads.stopping = crew.threads.stopping := by
  cases ht with
  | turns _ ht =>
    cases ht with
    | stops => exact absurd rfl hstop
    | connects | accepts | turnsAway | registers | starts | keeps | joins | acceptFails | copyFails
    | startFails | arrives | serves | breaks | leaves | exits | wakes | detaches | returns =>
      exact ⟨rfl, rfl, rfl, rfl⟩
  | opens | fails | works => exact ⟨rfl, rfl, rfl, rfl⟩

/-- A turn adds no connection, or one that has just been accepted, and no worker beyond them. -/
theorem vacant_turn (ht : crew.Turn move next) :
    (next.threads.links.length = crew.threads.links.length ∨
        ∃ max, next.threads.links = crew.threads.links ++ [{ receiver := { max } }]) ∧
      ∀ id, crew.threads.links.length ≤ id → next.posts id = crew.posts id := by
  have hset : ∀ (id : Nat) (link : Link),
      (crew.threads.links.set id link).length = crew.threads.links.length := fun _ _ =>
    List.length_set
  have hne : ∀ {other : Nat} {link : Link}, crew.threads.links[other]? = some link →
      ∀ id, crew.threads.links.length ≤ id → id ≠ other := by
    rintro other link hlink id hle rfl
    exact Nat.not_lt.mpr hle (List.getElem?_eq_some_iff.mp hlink).1
  cases ht with
  | turns _ ht =>
    refine ⟨?_, fun _ _ => rfl⟩
    cases ht with
    | connects | keeps | joins | acceptFails | wakes | detaches | returns => exact .inl rfl
    | accepts => exact .inr ⟨_, rfl⟩
    | turnsAway | registers | copyFails | starts | startFails | arrives | serves | breaks | leaves
    | exits =>
      exact .inl (hset _ _)
    | stops => exact .inl List.length_mapIdx
  | opens hlink =>
    exact ⟨.inl rfl, fun id hle => crew.posts_setPost_of_ne (hne hlink id hle) _⟩
  | fails => exact ⟨.inl (hset _ _), fun _ _ => rfl⟩
  | works hlink =>
    exact ⟨.inl (hset _ _), fun id hle => crew.posts_setPost_of_ne (hne hlink id hle) _⟩

/-- **Where a connection comes from.** A move about it made a stride of it, or it is as it was, or
it has just been accepted. -/
theorem Kept.origin (h : Kept config reply peers crew) (hstop : move ≠ .turn .stop)
    (ht : crew.Turn move next) {id : Nat} {link' : Link}
    (hlink' : next.threads.links[id]? = some link') :
    (∃ link, crew.threads.links[id]? = some link ∧
        crew.Stride id link move link' (next.posts id)) ∨
      (crew.threads.links[id]? = some link' ∧ next.posts id = crew.posts id) ∨
      next.posts id = none ∧ ∃ max, link' = { receiver := { max } } := by
  cases hlink : crew.threads.links[id]? with
  | some link =>
    by_cases hm : crew.Concerns id move
    · obtain ⟨link'', hlink'', hstride⟩ := stride_of_turn h.registered h.running ht hm hstop hlink
      cases hlink'.symm.trans hlink''
      exact .inl ⟨link, rfl, hstride⟩
    · obtain ⟨hsame, hpost⟩ := passed_turn ht hm hlink
      exact .inr (.inl ⟨hsame.symm.trans hlink', hpost⟩)
  | none =>
    have hid := List.getElem?_eq_none_iff.mp hlink
    obtain ⟨hlinks, hposts⟩ := vacant_turn ht
    refine .inr (.inr ⟨(hposts id hid).trans (h.vacant id hid), ?_⟩)
    rcases hlinks with heq | ⟨max, heq⟩
    · rw [List.getElem?_eq_none (heq ▸ hid)] at hlink'
      cases hlink'
    · rw [heq, List.getElem?_append_right hid, List.getElem?_singleton] at hlink'
      split at hlink'
      · exact ⟨max, (Option.some.inj hlink').symm⟩
      · cases hlink'

/-- **Every turn keeps each connection on its way.** -/
theorem Kept.turn (h : Kept config reply peers crew) (hstop : move ≠ .turn .stop)
    (ht : crew.Turn move next) : Kept config reply peers next := by
  obtain ⟨hconfig, hhandler, hpeers, hstopping⟩ := same_turn ht hstop
  obtain ⟨hlinks, hposts⟩ := vacant_turn ht
  have hle : crew.threads.links.length ≤ next.threads.links.length := by
    rcases hlinks with heq | ⟨max, heq⟩
    · exact Nat.le_of_eq heq.symm
    · simp [heq]
  refine ⟨h.registered.turn ht, hstopping.trans h.running, hconfig.trans h.settings,
    hhandler ▸ h.computes, hpeers.trans h.meets, fun id hid => ?_, fun id link' hlink' => ?_⟩
  · have hid := Nat.le_trans hle hid
    exact (hposts id hid).trans (h.vacant id hid)
  · rcases h.origin hstop ht hlink' with ⟨link, hlink, hstride⟩ | ⟨hlink, hpost⟩ | ⟨hpost, max, rfl⟩
    · obtain ⟨htrack, hshut⟩ := h.tracks id link hlink
      rw [← h.settings, ← h.meets] at htrack ⊢
      exact htrack.stride h.computes hshut hstride
    · rw [hpost]
      exact h.tracks id link' hlink
    · rw [hpost]
      exact ⟨.waits trivial rfl, rfl⟩

theorem Kept.not_turnedAway (h : Kept config reply peers crew) (hstop : move ≠ .turn .stop)
    (hfails : move ≠ .turn .acceptorFails) (ht : crew.Turn move next)
    (hnone : ∀ (id : Nat) (link : Link), crew.threads.links[id]? = some link →
      link.stage ≠ .turnedAway) (id : Nat) (link' : Link)
    (hlink' : next.threads.links[id]? = some link') : link'.stage ≠ .turnedAway := by
  rcases h.origin hstop ht hlink' with ⟨link, hlink, hstride⟩ | ⟨hlink, -⟩ | ⟨-, max, rfl⟩
  · generalize next.posts id = post at hstride
    cases hstride with
    | registers | fails | leaves | exits => exact nofun
    | starts =>
      unfold Link.start
      split
      · exact nofun
      · exact nofun
    | givesUp => exact absurd rfl hfails
    | opens hs => exact hs ▸ nofun
    | @works _ _ post' bytes =>
      rcases link.follow_stage post'.worker bytes with ⟨status, -, heq⟩ | ⟨-, heq⟩
      · exact heq ▸ nofun
      · exact heq ▸ nofun
  · exact hnone id link' hlink
  · exact nofun

theorem kept_start {handler : Handler σ} (hc : handler.Computes reply) (config : Config)
    (state : σ) (peers : Nat → Peer) :
    Kept config reply peers (start config handler state peers) where
  registered := Threads.registered_start config handler state
  running := rfl
  settings := rfl
  computes := hc
  meets := rfl
  vacant _ _ := rfl
  tracks _ _ hlink := by cases hlink

/-- **In every run of a server that is not stopped, each connection is on its way.** -/
theorem kept_of_run {handler : Handler σ} (hc : handler.Computes reply) {state : σ}
    {moves : List Move} (h : (start config handler state peers).run moves = some crew)
    (hstop : .turn .stop ∉ moves) : Kept config reply peers crew :=
  run_turn (P := Kept config reply peers) (Q := (· ≠ .turn .stop))
    (fun hkept hstop ht => hkept.turn hstop ht) (kept_start hc config state peers)
    (fun _ hm heq => hstop (heq ▸ hm)) h

theorem not_turnedAway_of_run {handler : Handler σ} (hc : handler.Computes reply) {state : σ}
    {moves : List Move} (h : (start config handler state peers).run moves = some crew)
    (hstop : .turn .stop ∉ moves) (hfails : .turn .acceptorFails ∉ moves) (id : Nat) (link : Link)
    (hlink : crew.threads.links[id]? = some link) : link.stage ≠ .turnedAway := by
  refine (run_turn (P := fun crew => Kept config reply peers crew ∧
      ∀ (id : Nat) (link : Link), crew.threads.links[id]? = some link → link.stage ≠ .turnedAway)
    (Q := fun move => move ≠ .turn .stop ∧ move ≠ .turn .acceptorFails)
    (fun hp hq ht => ⟨hp.1.turn hq.1 ht, hp.1.not_turnedAway hq.1 hq.2 ht hp.2⟩)
    ⟨kept_start hc config state peers, fun _ _ hlink => by cases hlink⟩ ?_ h).2 id link hlink
  exact fun move hm => ⟨fun heq => hstop (heq ▸ hm), fun heq => hfails (heq ▸ hm)⟩

end Crew

end Server

end Parley
