import Parley.Proofs.Exchange.Correlation
import Parley.Proofs.Exchange.Wires
import Parley.Proofs.Server.Sound

/-!
# Exchanges never get stuck

A client and a worker are chained by four bounded queues: the two wires and the two buffers. Each of
these can fill up and stop whoever fills it, or run empty and stop whoever empties it.

**Why nobody waits in a circle.** The two threads of one end never wait for each other. An end that
cannot go on waits for bytes from its wire, which is empty and open (`Starved`), or for room on the
other one (`Steady.client`, `Steady.server`). So everything hangs on what the two ends do at the
same time, and there the ledger tells (`Correlated.not_both`). Messages are pending one way at a
time, so that the ends do not both write. And a request that was begun is pending or its response
is, so that they do not both wait for bytes.

**Theorem (`Dialogue.never_stuck`).** In every state of every run, as long as the client is in the
middle of a request or the worker of a response, some thread or socket can take a step. The
queues may be as small as one byte each.
-/

namespace Parley

open Transport (Intake)
open Parley.Frame (Outcome Cut)

variable {σ : Type}

/-! ## Nothing is left -/

theorem eq_nil_of_cut_frames {max : UInt32} {messages : List Message} {outcome : Outcome}
    (hfit : ∀ message ∈ messages, message.encode.length < UInt32.size)
    (hcut : Cut max (frames messages) outcome []) (hend : outcome.IsEnd) : messages = [] := by
  cases messages with
  | nil => rfl
  | cons first more =>
    have hsize := hfit first List.mem_cons_self
    rw [frames_cons] at hcut
    by_cases hle : first.encode.length ≤ max.toNat
    · obtain ⟨rfl, -⟩ := hcut.unique (.frame hle (frames more))
      cases hend
    · have hlarge := Cut.tooLarge hsize (Nat.lt_of_not_le hle) (first.encode ++ frames more)
      rw [← List.append_assoc] at hlarge
      obtain ⟨rfl, -⟩ := hcut.unique hlarge
      cases hend

/-- An owner that waits for a pump that waits for the socket has nothing on its way. -/
theorem Transport.Intake.Expects.eq_nil_of_starved {intake : Intake} {capacity : Nat}
    {messages : List Message} (h : intake.Expects capacity [] (frames messages))
    (hfit : ∀ message ∈ messages, message.encode.length < UInt32.size)
    (hp : intake.pump = .receiving) (hr : intake.pair.buffer.reader = .waiting) :
    messages = [] := by
  obtain ⟨receiver, htracks, hflow⟩ := h
  obtain ⟨pending, outcome, hend, hcut, rfl⟩ := htracks.starved hp hr
  have hall : frames messages = pending := hflow.trans (List.append_nil pending)
  exact eq_nil_of_cut_frames hfit (hall ▸ hcut) hend

theorem Transport.Intake.Expects.eq_nil_of_frames_nil {intake : Intake} {capacity : Nat}
    {held left : List UInt8} (h : intake.Expects capacity (held ++ left) (frames [])) :
    left = [] := by
  obtain ⟨receiver, -, hflow⟩ := h
  have hnil : receiver.pending ++ (held ++ left) = [] := hflow.symm
  simp only [List.append_eq_nil_iff] at hnil
  exact hnil.2.2

namespace Dialogue

variable {dialogue next : Dialogue σ} {capacity serverCapacity requests responses : Nat}
  {max : UInt32} {ledger : Ledger} {side : Side}

/-- Both ends and the wires between them agree. -/
structure Steady (capacity serverCapacity requests responses : Nat) (dialogue : Dialogue σ) :
    Prop where
  caller : dialogue.caller.Sound capacity
  worker : dialogue.worker.Sound serverCapacity
  wired : dialogue.Wired requests responses

/-- **Every move keeps both ends sound.** -/
theorem Steady.turn {action : Action}
    (h : dialogue.Steady capacity serverCapacity requests responses)
    (ht : dialogue.Turn action next) :
    next.Steady capacity serverCapacity requests responses := by
  have hwired := h.wired.turn ht
  cases ht.acts with
  | asks ha => exact ⟨h.caller.ask ha, h.worker, hwired⟩
  | callerWrites hp => exact ⟨h.caller.push hp, h.worker, hwired⟩
  | callerBreaks hb => exact ⟨h.caller.breakOff hb, h.worker, hwired⟩
  | callerGoes hstep ho =>
    exact ⟨⟨h.caller.intake.step hstep, ho ▸ h.caller.places⟩, h.worker, hwired⟩
  | callerTurns hturn => exact ⟨h.caller.turn hturn, h.worker, hwired⟩
  | workerSteps hstep => exact ⟨h.caller, h.worker.step hstep, hwired⟩
  | workerBreaks hb => exact ⟨h.caller, h.worker.breakOff hb, hwired⟩
  | sockets => exact ⟨h.caller, h.worker, hwired⟩

theorem Steady.run {actions : List Action}
    (h : dialogue.Steady capacity serverCapacity requests responses)
    (hrun : dialogue.run actions = some next) :
    next.Steady capacity serverCapacity requests responses :=
  run_turn (fun h _ ht => h.turn ht) h hrun

theorem steady_start? {handler : Handler σ} {state : σ} {config serverConfig : Config}
    (h : start? handler state config serverConfig requests responses = some dialogue) :
    dialogue.Steady config.bufferCapacity serverConfig.bufferCapacity requests responses := by
  simp only [start?, Option.bind_eq_bind, Option.bind_eq_some_iff, Option.pure_def,
    Option.some.injEq] at h
  obtain ⟨caller, hcaller, worker, hworker, rfl⟩ := h
  have hc := Caller.sound_ofConfig? hcaller
  have hw := Worker.sound_ofConfig? hworker
  refine ⟨hc, hw, rfl, rfl, fun hshut => ?_, fun hshut => ?_⟩
  · -- A new client has its connection.
    have hhas := hc.intake.shut.mp hshut
    obtain ⟨intake, hintake, rfl⟩ := Option.map_eq_some_iff.mp hcaller
    rw [(Intake.ofConfig?_fresh hintake).2] at hhas
    cases hhas
  · have hhas := hw.intake.shut.mp hshut
    obtain ⟨intake, hintake, rfl⟩ := Option.map_eq_some_iff.mp hworker
    cases hhas

/-! ## Steps that can be taken -/

/-- The moves of the threads, and of the sockets between them. -/
def Action.IsParty : Action → Prop
  | push .. | pull .. | pump _ | owner _ => True
  | send _ | refuse .. | fail .. | close _ => False

/-- Some thread that does not wait, or some socket, can take a step. -/
def CanMove (dialogue : Dialogue σ) : Prop :=
  ∃ action next, action.IsParty ∧ dialogue.awake action = true ∧
    dialogue.step action = some next

theorem canMove_pull (hp : (dialogue.intake side).pump = .receiving)
    (hw : (dialogue.incoming side).held ≠ [] ∨ (dialogue.incoming side).isOpen = false) :
    dialogue.CanMove := by
  obtain ⟨bytes, wire, hreceive, hle⟩ := Wire.exists_receive hw Transport.pumpSize
  obtain ⟨intake, harrive⟩ := Intake.exists_arrive hp (.ok bytes)
    (fun chunk heq => Except.ok.inj heq ▸ hle)
  have hpos : Transport.pumpSize ≠ 0 := by decide
  refine ⟨.pull side Transport.pumpSize, (dialogue.setIntake side intake).setIncoming side wire,
    trivial, rfl, ?_⟩
  simp [step, pull, hpos, hreceive, harrive]

theorem canMove_pump {intake : Intake} (ha : (dialogue.intake side).awake .pump = true)
    (ht : (dialogue.intake side).pumpTurn = some intake) : dialogue.CanMove :=
  ⟨.pump side, _, trivial, ha, by rw [step, ht]; rfl⟩

theorem canMove_owner {turn : Intake × Option Report}
    (ha : (dialogue.intake side).awake .owner = true)
    (ht : (dialogue.intake side).ownerTurn = some turn) : dialogue.CanMove := by
  refine ⟨.owner side, ?_⟩
  cases side with
  | client =>
    have hturn : ∃ caller, dialogue.caller.turn = some caller := by
      have ht : dialogue.caller.intake.ownerTurn = some turn := ht
      simp [Caller.turn, ht]
    obtain ⟨caller, hturn⟩ := hturn
    simp [Action.IsParty, step, Dialogue.turn, hturn, awake, ha]
  | server =>
    have hturn : ∃ worker, dialogue.worker.turn = some worker := by
      have ht : dialogue.worker.intake.ownerTurn = some turn := ht
      simp [Worker.turn, ht]
    obtain ⟨worker, hturn⟩ := hturn
    simp [Action.IsParty, step, Dialogue.turn, hturn, awake, ha]

theorem canMove_pushRequest {request : Message} {left : List UInt8}
    (ha : dialogue.caller.asking = .writing request left)
    (hw : left = [] ∨ dialogue.requests.isOpen = false ∨ 0 < dialogue.requests.room) :
    dialogue.CanMove := by
  have hstep : ∃ next, dialogue.step (.push .client 1) = some next := by
    show ∃ next, dialogue.pushRequest 1 = some next
    cases left with
    | nil => simp [pushRequest, Caller.push, ha]
    | cons byte more =>
      by_cases hopen : dialogue.requests.isOpen = true
      · have hroom : 0 < dialogue.requests.room := by simpa [hopen] using hw
        obtain ⟨wire, hsend⟩ := Wire.exists_send hopen hroom byte
        simp [pushRequest, Caller.push, ha, hopen, hsend]
      · simp [pushRequest, Caller.breakOff, ha, hopen]
  obtain ⟨next, hstep⟩ := hstep
  exact ⟨.push .client 1, next, trivial, rfl, hstep⟩

theorem canMove_pushResponse {left : List UInt8} (hs : dialogue.worker.serving = .writing left)
    (hw : left = [] ∨ dialogue.responses.isOpen = false ∨ 0 < dialogue.responses.room) :
    dialogue.CanMove := by
  have hstep : ∃ next, dialogue.step (.push .server 1) = some next := by
    show ∃ next, dialogue.pushResponse 1 = some next
    cases left with
    | nil => simp [pushResponse, Worker.push, hs]
    | cons byte more =>
      by_cases hopen : dialogue.responses.isOpen = true
      · have hroom : 0 < dialogue.responses.room := by simpa [hopen] using hw
        obtain ⟨wire, hsend⟩ := Wire.exists_send hopen hroom byte
        simp [pushResponse, Worker.push, hs, hopen, hsend]
      · simp [pushResponse, Worker.breakOff, hs, hopen]
  obtain ⟨next, hstep⟩ := hstep
  exact ⟨.push .server 1, next, trivial, rfl, hstep⟩

/-- The threads of a side wait for its wire, which is empty and open. -/
structure Starved (dialogue : Dialogue σ) (side : Side) : Prop where
  pump : (dialogue.intake side).pump = .receiving
  reader : (dialogue.intake side).pair.buffer.reader = .waiting
  held : (dialogue.incoming side).held = []
  isOpen : (dialogue.incoming side).isOpen = true

/-- An end in the middle of a read, or of giving up, can take a step unless it is starved. -/
theorem canMove_or_starved (hs : (dialogue.intake side).Sound capacity)
    (hidle : (dialogue.intake side).owner ≠ .idle) (hgone : (dialogue.intake side).owner ≠ .gone)
    (hshut : (dialogue.intake side).shut = true → (dialogue.incoming side).isOpen = false) :
    dialogue.CanMove ∨ dialogue.Starved side := by
  rcases hs.exists_turn hidle hgone with ⟨hp, hwhy⟩ | ⟨intake, ha, ht⟩ | ⟨turn, ha, ht⟩
  · by_cases hw : (dialogue.incoming side).held ≠ [] ∨ (dialogue.incoming side).isOpen = false
    · exact .inl (canMove_pull hp hw)
    · simp only [not_or, ne_eq, Classical.not_not, Bool.not_eq_false] at hw
      obtain ⟨hheld, hopen⟩ := hw
      rcases hwhy with hclosed | hr
      · rw [hshut hclosed] at hopen
        cases hopen
      · exact .inr ⟨hp, hr, hheld, hopen⟩
  · exact .inl (canMove_pump ha ht)
  · exact .inl (canMove_owner ha ht)

theorem Starved.not_leaves (h : dialogue.Starved side)
    (hs : (dialogue.intake side).Sound capacity) : ¬(dialogue.intake side).owner.Leaves := by
  obtain ⟨assembly, ho⟩ := hs.reading_of_waiting h.reader
  rw [ho]
  exact id

/-! ## The two ends -/

/-- The client waits for a response, or for room for its request. -/
inductive ClientWaits (dialogue : Dialogue σ) : Prop
  | awaiting {request : Message} (ha : dialogue.caller.asking = .awaiting request)
    (h : dialogue.Starved .client)
  | writing {request : Message} {left : List UInt8}
    (ha : dialogue.caller.asking = .writing request left) (hne : left ≠ [])
    (hopen : dialogue.requests.isOpen = true) (hfull : dialogue.requests.room = 0)

/-- The worker waits for a request, or for room for its response. -/
inductive WorkerWaits (dialogue : Dialogue σ) : Prop
  | reading (hs : dialogue.worker.serving = .reading) (h : dialogue.Starved .server)
  | writing {left : List UInt8} (hs : dialogue.worker.serving = .writing left) (hne : left ≠ [])
    (hopen : dialogue.responses.isOpen = true) (hfull : dialogue.responses.room = 0)

/-- **The client goes on or waits for the worker.** -/
theorem Steady.client (h : dialogue.Steady capacity serverCapacity requests responses)
    (hask : dialogue.caller.asking ≠ .idle) : dialogue.CanMove ∨ dialogue.ClientWaits := by
  have hplaces := h.caller.places
  have hsound : (dialogue.intake .client).Sound capacity := h.caller.intake
  have hshut : dialogue.caller.intake.shut = true → dialogue.responses.isOpen = false := by
    intro hshut
    simp [Wire.isOpen, (h.wired.client hshut).2]
  cases ha : dialogue.caller.asking with
  | idle => exact absurd ha hask
  | writing request left =>
    by_cases hw : left = [] ∨ dialogue.requests.isOpen = false ∨ 0 < dialogue.requests.room
    · exact .inl (canMove_pushRequest ha hw)
    · simp only [not_or, Bool.not_eq_false, Nat.not_lt, Nat.le_zero] at hw
      exact .inr (.writing ha hw.1 hw.2.1 hw.2.2)
  | awaiting request =>
    rw [ha] at hplaces
    obtain ⟨hidle, hgone⟩ := hplaces.2.busy
    rcases canMove_or_starved hsound hidle hgone hshut with hmove | hstarved
    · exact .inl hmove
    · exact .inr (.awaiting ha hstarved)
  | leaving request error =>
    rw [ha] at hplaces
    obtain ⟨hidle, hgone⟩ := hplaces.2.busy
    rcases canMove_or_starved hsound hidle hgone hshut with hmove | hstarved
    · exact .inl hmove
    · exact absurd hplaces.2 (hstarved.not_leaves hsound)

/-- **The worker goes on, waits for the client, or is done.** -/
theorem Steady.server (h : dialogue.Steady capacity serverCapacity requests responses) :
    dialogue.CanMove ∨ dialogue.WorkerWaits ∨ ∃ status, dialogue.worker.serving = .done status := by
  have hfits := h.worker.fits
  have hsound : (dialogue.intake .server).Sound serverCapacity := h.worker.intake
  have hshut : dialogue.worker.intake.shut = true → dialogue.requests.isOpen = false := by
    intro hshut
    simp [Wire.isOpen, (h.wired.server hshut).1]
  cases hs : dialogue.worker.serving with
  | reading =>
    rw [hs] at hfits
    obtain ⟨hidle, hgone⟩ := Transport.Owner.Wants.busy hfits
    rcases canMove_or_starved hsound hidle hgone hshut with hmove | hstarved
    · exact .inl hmove
    · exact .inr (.inl (.reading hs hstarved))
  | writing left =>
    by_cases hw : left = [] ∨ dialogue.responses.isOpen = false ∨ 0 < dialogue.responses.room
    · exact .inl (canMove_pushResponse hs hw)
    · simp only [not_or, Bool.not_eq_false, Nat.not_lt, Nat.le_zero] at hw
      exact .inr (.inl (.writing hs hw.1 hw.2.1 hw.2.2))
  | leaving status =>
    rw [hs] at hfits
    obtain ⟨hidle, hgone⟩ := Transport.Owner.Leaves.busy hfits
    rcases canMove_or_starved hsound hidle hgone hshut with hmove | hstarved
    · exact .inl hmove
    · exact absurd hfits (hstarved.not_leaves hsound)
  | done status => exact .inr (.inr ⟨status, rfl⟩)

theorem Steady.closed_of_done (h : dialogue.Steady capacity serverCapacity requests responses)
    {status : ServiceStatus} (hs : dialogue.worker.serving = .done status) :
    dialogue.requests.isOpen = false ∧ dialogue.responses.isOpen = false := by
  have hfits := h.worker.fits
  rw [hs] at hfits
  have ho : dialogue.worker.intake.owner = .gone := hfits
  have hshut : dialogue.worker.intake.shut = true := h.worker.intake.shut.mpr (ho ▸ trivial)
  obtain ⟨hcut, hended⟩ := h.wired.server hshut
  simp [Wire.isOpen, hcut, hended]

theorem Steady.closed_of_idle (h : dialogue.Steady capacity serverCapacity requests responses)
    (ha : dialogue.caller.asking = .idle) (hd : dialogue.caller.client.connected = false) :
    dialogue.responses.isOpen = false := by
  have hplaces := h.caller.places
  rw [ha, hd] at hplaces
  have ho : dialogue.caller.intake.owner = .gone := hplaces
  have hshut : dialogue.caller.intake.shut = true := h.caller.intake.shut.mpr (ho ▸ trivial)
  simp [Wire.isOpen, (h.wired.client hshut).2]

/-! ## Both ends at once -/

theorem Correlated.inStep_worker (h : dialogue.Correlated capacity serverCapacity max ledger)
    (ha : dialogue.worker.serving.IsActive) :
    dialogue.worker.InStep serverCapacity max ledger dialogue.requests.held := by
  refine h.worker.resolve_right fun hquit => ?_
  rcases hquit.stands with ⟨status, hstands⟩ | ⟨status, hstands⟩
  · simp [hstands] at ha
  · simp [hstands] at ha

theorem WorkerWaits.isActive (h : dialogue.WorkerWaits) : dialogue.worker.serving.IsActive := by
  cases h with
  | reading hserving => exact .inl hserving
  | writing hserving => exact .inr ⟨_, hserving⟩

theorem Correlated.inStep_caller (h : dialogue.Correlated capacity serverCapacity max ledger)
    (hs : dialogue.Steady capacity serverCapacity requests responses)
    (hc : dialogue.ClientWaits) :
    dialogue.caller.InStep capacity max ledger dialogue.responses.held := by
  have hplaces := hs.caller.places
  refine h.caller.resolve_right fun hquit => ?_
  rw [hquit.disconnected] at hplaces
  cases hc with
  | awaiting ha | writing ha =>
    rw [ha] at hplaces
    exact absurd hplaces.1 nofun

/-- **The two ends do not wait for each other.** -/
theorem Correlated.not_both (h : dialogue.Correlated capacity serverCapacity max ledger)
    (hs : dialogue.Steady capacity serverCapacity requests responses) (hq : 0 < requests)
    (hr : 0 < responses) (hclient : dialogue.ClientWaits) : ¬dialogue.WorkerWaits := by
  intro hworker
  have hcaller := h.inStep_caller hs hclient
  have hserver := h.inStep_worker hworker.isActive
  have hrequests := hserver.expects
  have hresponses := hcaller.expects
  have hbegun := hcaller.begun
  rw [hcaller.left] at hrequests
  rw [hserver.left] at hresponses
  cases hclient with
  | awaiting ha hc =>
    have hempty : dialogue.responses.held = [] := hc.held
    cases hworker with
    | reading hserving hw =>
      have hheld : dialogue.requests.held = [] := hw.held
      rw [ha, hheld] at hrequests
      rw [hserving, hempty] at hresponses
      have hnone := hrequests.eq_nil_of_starved h.balanced.fits_pendingRequests hw.pump hw.reader
      have hnothing := hresponses.eq_nil_of_starved (ledger.fits_pendingResponses max) hc.pump
        hc.reader
      -- The request has been begun and is nowhere.
      have hsent := hs.worker.replied (.inl hserving)
      rw [hserver.handled, hserver.max] at hsent
      have hlt : ledger.answered.length < ledger.begun.length := by
        rw [hbegun, ha]
        simp [Asking.request?]
      rcases Ledger.pending_of_begun hlt hsent with hne | hne
      · exact hne hnone
      · exact hne hnothing
    | writing hserving hne _ hfull =>
      exact Wire.held_ne_nil_of_full (hs.wired.responses ▸ hr) hfull hempty
  | writing ha hleft hopen hfull =>
    cases hworker with
    | reading hserving hw =>
      exact Wire.held_ne_nil_of_full (hs.wired.requests ▸ hq) hfull hw.held
    | writing hserving hne =>
      rw [ha] at hrequests
      rw [hserving] at hresponses
      rcases h.balanced.pending_one_way with hnone | hnone
      · rw [hnone] at hrequests
        exact hleft hrequests.eq_nil_of_frames_nil
      · rw [hnone] at hresponses
        exact hne hresponses.eq_nil_of_frames_nil

/-- A client that is not in the middle of a request leaves nothing for the worker to write. -/
theorem Correlated.not_writing (h : dialogue.Correlated capacity serverCapacity max ledger)
    (hs : dialogue.Steady capacity serverCapacity requests responses)
    (ha : dialogue.caller.asking = .idle) {left : List UInt8}
    (hserving : dialogue.worker.serving = .writing left) (hne : left ≠ []) :
    dialogue.responses.isOpen = false := by
  rcases h.caller with hcaller | hquit
  · have hserver := h.inStep_worker (.inr ⟨left, hserving⟩)
    have hbegun := hcaller.begun
    rw [ha, Asking.request?, Option.toList_none, List.append_nil] at hbegun
    have hall : ledger.handled.length ≤ ledger.answered.length := by
      have hle := h.balanced.length_handled_le
      rwa [hbegun, List.length_map] at hle
    have hnone : ledger.pendingResponses max = [] := by
      rw [Ledger.pendingResponses, List.drop_eq_nil_of_le hall]
      rfl
    have hresponses := hcaller.expects
    rw [hserver.left, hserving, hnone] at hresponses
    exact absurd hresponses.eq_nil_of_frames_nil hne
  · exact hs.closed_of_idle ha hquit.disconnected

/-- The client is in the middle of a request, or the worker of a response or of giving up. -/
def Unfinished (dialogue : Dialogue σ) : Prop :=
  dialogue.caller.asking ≠ .idle ∨ (∃ left, dialogue.worker.serving = .writing left) ∨
    ∃ status, dialogue.worker.serving = .leaving status

/-- **Somebody can go on.** -/
theorem Correlated.canMove (h : dialogue.Correlated capacity serverCapacity max ledger)
    (hs : dialogue.Steady capacity serverCapacity requests responses) (hq : 0 < requests)
    (hr : 0 < responses) (hbusy : dialogue.Unfinished) : dialogue.CanMove := by
  by_cases hask : dialogue.caller.asking = .idle
  · rcases hs.server with hmove | hworker | ⟨status, hdone⟩
    · exact hmove
    · cases hworker with
      | reading hserving => simp [Unfinished, hask, hserving] at hbusy
      | writing hserving hne hopen =>
        rw [h.not_writing hs hask hserving hne] at hopen
        cases hopen
    · simp [Unfinished, hask, hdone] at hbusy
  · rcases hs.client hask with hmove | hclient
    · exact hmove
    rcases hs.server with hmove | hworker | ⟨status, hdone⟩
    · exact hmove
    · exact absurd hworker (h.not_both hs hq hr hclient)
    · -- A worker that is done leaves the client nothing to wait for.
      obtain ⟨hrequests, hresponses⟩ := hs.closed_of_done hdone
      cases hclient with
      | awaiting _ hstarved =>
        have hopen : dialogue.responses.isOpen = true := hstarved.isOpen
        rw [hresponses] at hopen
        cases hopen
      | writing _ _ hopen =>
        rw [hrequests] at hopen
        cases hopen

/-- **Exchanges never get stuck.** Let a client with valid settings be connected to a worker with
valid settings and any handler, over wires that hold a byte or more each. After every run, with any
requests and failures, in which the client has not come to the end of a request, or the worker of a
response or of its service, a thread that does not wait or a socket can take a step. -/
theorem never_stuck (handler : Handler σ) (state : σ) {config serverConfig : Config}
    (hc : config.validate = .ok ()) (hs : serverConfig.validate = .ok ()) {requests responses : Nat}
    (hq : 0 < requests) (hr : 0 < responses) :
    ∃ start, start? handler state config serverConfig requests responses = some start ∧
      ∀ actions dialogue, start.run actions = some dialogue → dialogue.Unfinished →
        dialogue.CanMove := by
  obtain ⟨start, hstart, -, hcorrelated⟩ := exists_start? handler state hc hs requests responses
  refine ⟨start, hstart, ?_⟩
  intro actions dialogue hrun hbusy
  obtain ⟨ledger, h⟩ := hcorrelated.run hrun
  exact h.canMove ((steady_start? hstart).run hrun) hq hr hbusy

/-- One-byte buffers and wires, and a request that has filled all of them on its way. -/
theorem never_stuck_full :
    let config : Config := { bufferCapacity := 1, maxFrameSize := 2 }
    let echo : Handler Unit := fun state request => (.response request, state)
    let request : Message := { fields := #[.bool true] }
    let actions : List Action := [.send request, .push .client 1, .pull .server 1, .pump .server,
      .push .client 1, .pull .server 1, .pump .server, .push .client 1]
    config.validate = .ok () ∧ 0 < 1 ∧ ∃ start dialogue,
      start? echo () config config 1 1 = some start ∧ start.run actions = some dialogue ∧
        dialogue.requests.room = 0 ∧ dialogue.awake (.pump .server) = false ∧
        dialogue.Unfinished ∧ dialogue.CanMove := by
  intro config echo request actions
  have hc : config.validate = .ok () := rfl
  have hrun : ((start? echo () config config 1 1).bind fun start =>
      (start.run actions).map fun dialogue => (dialogue.requests.room,
        dialogue.awake (.pump .server), dialogue.caller.asking.left.length)) =
      some (0, false, 3) := by
    cbv
  obtain ⟨start, hstart, hrun⟩ := Option.bind_eq_some_iff.mp hrun
  obtain ⟨dialogue, hrun, hfull⟩ := Option.map_eq_some_iff.mp hrun
  simp only [Prod.mk.injEq] at hfull
  obtain ⟨hroom, hwaits, hleft⟩ := hfull
  have hbusy : dialogue.Unfinished := by
    refine .inl fun hidle => ?_
    rw [hidle] at hleft
    cases hleft
  refine ⟨hc, Nat.one_pos, start, dialogue, hstart, hrun, hroom, hwaits, hbusy, ?_⟩
  obtain ⟨first, hfirst, hall⟩ := never_stuck echo () hc hc Nat.one_pos Nat.one_pos
  obtain rfl : start = first := Option.some.inj (hstart.symm.trans hfirst)
  exact hall actions dialogue hrun hbusy

end Dialogue

end Parley
