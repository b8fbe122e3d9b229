import Parley.Exchange
import Parley.Proofs.Server.Advance

/-!
# Settings within bounds and settings that serve

Settings are looked at before a server listens and before a client connects. They are used when a
connection is set up: its buffer takes the capacity, its frames take the largest size, and its
socket takes the read timeout. Bounds and enough memory are all that the buffer and the frames ask
for. The socket asks for more, as it refuses a timeout of no time at all, and nobody has looked at
that before.

**Theorem (`Config.serves_unless_zero_timeout`).** With settings within bounds a connection is set
up just if a read may take some time. Then every connection comes to what its other end makes of it.
Otherwise a client never connects, and a server starts and drops every connection unserved.

**The invariant** of the latter (`Link.Unserved`). No connection gets as far as being in service, so
nothing is handled or sent, and its end can only be the refusal.
-/

namespace Parley

variable {σ : Type}

/-! ## A server whose settings no socket takes -/

namespace Server

/-- A connection that is dropped for this error before it is served, if it gets a worker at all. -/
structure Link.Unserved (error : TransportError) (link : Link) : Prop where
  stage : link.stage ≠ .serving
  requests : link.requests = []
  sent : link.sent = []
  dropped : ∀ status, link.stage.status? = some status → status = .dropped error

namespace Link.Unserved

variable {error : TransportError} {link : Link}

theorem accepted (receiver : Receiver) : Link.Unserved error { receiver } where
  stage := nofun
  requests := rfl
  sent := rfl
  dropped _ hended := absurd trivial (Stage.not_isIdle_of_status? hended)

theorem idles (h : link.Unserved error) {stage : Stage} (hs : stage.IsIdle) :
    Link.Unserved error { link with stage } where
  stage := by
    rintro rfl
    exact hs
  requests := h.requests
  sent := h.sent
  dropped _ hended := absurd hs (Stage.not_isIdle_of_status? hended)

theorem drops (h : link.Unserved error) {stage : Stage}
    (hs : stage.status? = some (.dropped error)) : Link.Unserved error { link with stage } where
  stage := by
    rintro rfl
    cases hs
  requests := h.requests
  sent := h.sent
  dropped _ hended := (Option.some.inj (hs.symm.trans hended)).symm

theorem start (h : link.Unserved error) {config : Config}
    (hsetup : Transport.setUp config = .error error) : (link.start config).Unserved error := by
  simp only [Link.start, hsetup]
  exact h.drops rfl

theorem shutDown (h : link.Unserved error) : link.shutDown.Unserved error :=
  ⟨h.stage, h.requests, h.sent, h.dropped⟩

end Link.Unserved

/-- A server with these settings, all of whose connections are unserved. -/
structure Threads.Unserving (config : Config) (error : TransportError) (threads : Threads σ) :
    Prop where
  settings : threads.config = config
  unserved : ∀ (id : Nat) (link : Link), threads.links[id]? = some link → link.Unserved error

variable {config : Config} {error : TransportError}

/-- **No turn of the server's own threads gets a connection served.** -/
theorem Threads.Unserving.turn {threads next : Threads σ} {move : Move}
    (h : threads.Unserving config error) (hsetup : Transport.setUp config = .error error)
    (ht : threads.Turn move next) : next.Unserving config error := by
  have hset : ∀ {id : Nat} {link link' : Link}, threads.links[id]? = some link →
      link'.Unserved error → ∀ (j : Nat) (other : Link),
        (threads.links.set id link')[j]? = some other → other.Unserved error :=
    fun hlink hunserved =>
      forall_set (P := fun _ => Link.Unserved error) hlink hunserved fun j _ => h.unserved j
  cases ht with
  | connects | keeps | joins | acceptFails | wakes | detaches | returns =>
    exact ⟨h.settings, h.unserved⟩
  | accepts =>
    exact ⟨h.settings, forall_concat (P := fun _ => Link.Unserved error)
      (.accepted _) fun j _ => h.unserved j⟩
  | turnsAway _ _ hlink | registers _ _ hlink | copyFails _ hlink | startFails _ hlink =>
    exact ⟨h.settings, hset hlink ((h.unserved _ _ hlink).idles trivial)⟩
  | starts _ hlink =>
    exact ⟨h.settings, hset hlink ((h.unserved _ _ hlink).start (h.settings ▸ hsetup))⟩
  | arrives hlink =>
    have hunserved := h.unserved _ _ hlink
    exact ⟨h.settings, hset hlink ⟨hunserved.stage, hunserved.requests, hunserved.sent,
      hunserved.dropped⟩⟩
  | serves hlink hstage | breaks hlink hstage =>
    exact absurd hstage (h.unserved _ _ hlink).stage
  | leaves hlink hstage | exits hlink hstage =>
    have hunserved := h.unserved _ _ hlink
    obtain rfl := hunserved.dropped _ (by rw [hstage]; rfl)
    exact ⟨h.settings, hset hlink (hunserved.drops rfl)⟩
  | stops =>
    refine ⟨h.settings, fun id link hlink => ?_⟩
    obtain ⟨old, hold, rfl⟩ := getElem?_announceStop hlink
    split
    · exact (h.unserved id old hold).shutDown
    · exact h.unserved id old hold

/-- **No run of a server gets a connection served if no socket takes the settings**, whatever is
done to the server in it. -/
theorem Crew.unserving_of_run (hsetup : Transport.setUp config = .error error)
    {handler : Handler σ} {state : σ} {peers : Nat → Peer} {moves : List Crew.Move} {crew : Crew σ}
    (h : (start config handler state peers).run moves = some crew) :
    crew.threads.Unserving config error := by
  refine run_turn (P := fun crew => crew.threads.Unserving config error) (Q := fun _ => True)
    (fun hp _ ht => ?_) ⟨rfl, fun _ _ hlink => by cases hlink⟩ (fun _ _ => trivial) h
  cases ht with
  | turns _ ht => exact hp.turn hsetup ht
  | opens hlink hstage | fails hlink hstage | works hlink hstage =>
    exact absurd hstage (hp.unserved _ _ hlink).stage

end Server

/-! ## Settings within bounds -/

namespace Config

variable {config : Config}

/-- **Settings that serve.** The buffer of a connection is taken to be there for its capacity, as
it is when the system has the memory; a capacity that no allocation can have is within bounds,
too. -/
structure Serves (σ : Type) (config : Config) : Prop where
  setUp : Transport.setUp config = .ok ()
  /-- The threads of a connection have what they were to have. -/
  intake : ∃ intake, Transport.Intake.ofConfig? config = some intake ∧
    intake.max = config.maxFrameSize ∧ intake.pair.buffer.ring.capacity = config.bufferCapacity
  /-- A client connects to a server that the network carries it to. -/
  connects : ∀ (serverConfig : Config) (state : σ),
    Exchange.connect ⟨true⟩ true config serverConfig state =
      .ok (.start config serverConfig state)
  /-- Any connection gets into service once it has a worker. -/
  starts : ∀ link : Server.Link, link.start config = { link with stage := .serving }
  /-- A connection whose socket the system lets be set up comes to what its other end makes of
  it. -/
  comes : ∀ (handler : Handler σ) (reply : Message → Reply), handler.Computes reply →
    ∀ (state : σ) (peers : Nat → Server.Peer) (moves : List Server.Crew.Move)
      (crew : Server.Crew σ), (Server.Crew.start config handler state peers).run moves = some crew →
    .turn .stop ∉ moves → ∀ (id : Nat) (link : Server.Link), crew.threads.links[id]? = some link →
    link.stage ≠ .turnedAway → (peers id).opening = none →
    let prospect := (peers id).prospect config reply
    Inevitable (Server.Crew.Advances id)
      (Server.Crew.Comes id (.limited ⟨prospect.sent, prospect.status⟩ (peers id).refusal)) crew

/-- **Settings that serve nobody**, for this error. -/
structure Fails (σ : Type) (config : Config) (error : TransportError) : Prop where
  setUp : Transport.setUp config = .error error
  connects : ∀ (serverConfig : Config) (state : σ),
    Exchange.connect ⟨true⟩ true config serverConfig state = .error error
  unserved : ∀ (handler : Handler σ) (state : σ) (peers : Nat → Server.Peer)
    (moves : List Server.Crew.Move) (crew : Server.Crew σ),
    (Server.Crew.start config handler state peers).run moves = some crew →
    ∀ (id : Nat) (link : Server.Link), crew.threads.links[id]? = some link → link.Unserved error
  /-- And every connection is dropped. -/
  comes : ∀ (handler : Handler σ) (reply : Message → Reply), handler.Computes reply →
    ∀ (state : σ) (peers : Nat → Server.Peer) (moves : List Server.Crew.Move)
      (crew : Server.Crew σ), (Server.Crew.start config handler state peers).run moves = some crew →
    .turn .stop ∉ moves → ∀ (id : Nat) (link : Server.Link), crew.threads.links[id]? = some link →
    link.stage ≠ .turnedAway →
    Inevitable (Server.Crew.Advances id) (Server.Crew.Comes id ⟨[], .dropped error⟩) crew

theorem not_serves_of_fails {error : TransportError} (h : config.Fails σ error) :
    ¬config.Serves σ := fun hserves => by
  cases h.setUp.symm.trans hserves.setUp

/-- A connection takes settings within bounds unless they leave its reads no time. -/
theorem setUp_of_validate (h : config.validate = .ok ()) : Transport.setUp config =
    if config.readTimeout = some 0 then .error (.failed .zeroTimeout) else .ok () := by
  rw [Transport.setUp, Transport.validate, h]
  rfl

theorem connect_of_validate (h : config.validate = .ok ()) (serverConfig : Config) (state : σ) :
    Exchange.connect ⟨true⟩ true config serverConfig state =
      (Transport.setUp config).map fun _ => .start config serverConfig state := by
  rw [Exchange.connect, Transport.validate, h]
  cases Transport.setUp config with
  | ok => rfl
  | error error => rfl

theorem serves_of_setUp (h : config.validate = .ok ()) (hsetup : Transport.setUp config = .ok ()) :
    config.Serves σ where
  setUp := hsetup
  intake := by
    obtain ⟨intake, hintake⟩ := Transport.Intake.exists_ofConfig? h
    refine ⟨intake, hintake, (Transport.Intake.ofConfig?_fresh hintake).1, ?_⟩
    simp only [Transport.Intake.ofConfig?, Buffer.Pair.ofCapacity?, Buffer.ofCapacity?] at hintake
    split at hintake
    · next hpos =>
      cases hintake
      exact Ring.capacity_empty _ hpos
    · cases hintake
  connects serverConfig state := by
    rw [connect_of_validate h, hsetup]
    rfl
  starts link := by simp only [Server.Link.start, hsetup]
  comes handler reply hc state peers moves crew hrun hstop id link hlink hs hopening := by
    have hcomes := (Server.Crew.kept_of_run hc hrun hstop).inevitable hlink hs
    rwa [(peers id).fate_of_setUp reply hsetup hopening] at hcomes

theorem fails_of_setUp {error : TransportError} (h : config.validate = .ok ())
    (hsetup : Transport.setUp config = .error error) : config.Fails σ error where
  setUp := hsetup
  connects serverConfig state := by
    rw [connect_of_validate h, hsetup]
    rfl
  unserved handler state peers moves crew hrun :=
    (Server.Crew.unserving_of_run hsetup hrun).unserved
  comes handler reply hc state peers moves crew hrun hstop id link hlink hs := by
    have hcomes := (Server.Crew.kept_of_run hc hrun hstop).inevitable hlink hs
    rwa [(peers id).fate_of_error reply hsetup] at hcomes

/-- **Settings within bounds serve unless they leave reads no time**, given the memory for the
buffers. Then they serve nobody, and what every client and every connection of a server meets is the
socket's refusal of the timeout. -/
theorem serves_unless_zero_timeout (σ : Type) {config : Config} (h : config.validate = .ok ()) :
    (config.readTimeout ≠ some 0 → config.Serves σ) ∧
      (config.readTimeout = some 0 → config.Fails σ (.failed .zeroTimeout)) := by
  have hsetup := setUp_of_validate h
  refine ⟨fun hne => serves_of_setUp h ?_, fun heq => fails_of_setUp h ?_⟩
  · rw [hsetup, if_neg hne]
  · rw [hsetup, if_pos heq]

/-- The shortest timeout serves. -/
theorem serves_unless_zero_timeout_one :
    let config : Config := { readTimeout := some 1 }
    config.validate = .ok () ∧ config.Serves Unit :=
  ⟨rfl, (serves_unless_zero_timeout Unit rfl).1 (by decide)⟩

/-- **A timeout of no time is within bounds.** A server starts with it and serves nobody. -/
theorem zero_timeout_within_bounds :
    let config : Config := { readTimeout := some 0 }
    config.validate = .ok () ∧ ¬config.Serves Unit ∧ config.Fails Unit (.failed .zeroTimeout) := by
  intro config
  have hfails : config.Fails Unit (.failed .zeroTimeout) := fails_of_setUp rfl rfl
  exact ⟨rfl, not_serves_of_fails hfails, hfails⟩

end Config

end Parley
