import Parley.Proofs.Exchange.Flows
import Parley.Proofs.Exchange.Progress

/-!
# How far a send has come

An `Exchange` takes the client and the worker in turns: a request is sent, the worker goes as far as
it can, and the client reads what this brings. The threads of a `Dialogue` take their turns in any
order, its sockets take and bring any number of bytes at a time, and its wires and buffers may be
full or empty at any point.

**The invariant** (`Dialogue.Stands`). A dialogue has come some way since an exchange. How far is
its `Stage`: nothing is on its way, a request is, a response is, or one of the ends has given the
connection up. What is on its way is a flow for each end (`Intake.Flows`), and what the send comes
to is settled from the moment it begins.

**Its turns.** There is a lemma for each kind of turn: most of them go on at the same stage, and a
report that an end is told (`Stands.judges`, `Stands.hears`) leads to the next.
-/

namespace Parley

open Transport (Intake Owner)

variable {σ : Type}

/-! ## One after the other -/

namespace Exchange

variable {handler : Handler σ} {start exchange : Exchange σ}
  {answered : List (Message × Except TransportError Message)}

/-- These requests were sent one after the other, with what came of them, and left this
exchange. -/
inductive Sent (handler : Handler σ) (start : Exchange σ) :
    List (Message × Except TransportError Message) → Exchange σ → Prop
  | none : Sent handler start [] start
  | more {answered : List (Message × Except TransportError Message)} {exchange next : Exchange σ}
      {request : Message} {result : Except TransportError Message}
      (h : Sent handler start answered exchange)
      (hs : exchange.send handler request = (result, next)) :
    Sent handler start (answered ++ [(request, result)]) next

theorem Sent.sendAll (h : Sent handler start answered exchange) (requests : List Message) :
    Exchange.sendAll (Exchange.send handler) start (answered.map Prod.fst ++ requests) =
      answered.map Prod.snd ++ Exchange.sendAll (Exchange.send handler) exchange requests := by
  induction h generalizing requests with
  | none => rfl
  | more _ hs ih =>
    rw [List.map_append, List.map_append, List.append_assoc, ih, List.append_assoc]
    simp only [List.map_cons, List.map_nil, List.cons_append, List.nil_append,
      Exchange.sendAll, hs]

theorem Sent.result_eq {request : Message} {result : Except TransportError Message}
    {next : Exchange σ} (hnext : Sent handler start (answered ++ [(request, result)]) next)
    (h : Sent handler start answered exchange) : result = (exchange.send handler request).1 := by
  have hall := hnext.sendAll []
  rw [List.append_nil, List.map_append, List.map_append, List.map_singleton, List.map_singleton,
    h.sendAll, List.append_assoc] at hall
  have hlast := List.append_cancel_left hall
  exact (List.cons.inj hlast).1.symm

end Exchange

/-! ## Who is there -/

theorem Asking.Places.present_iff {asking : Asking} {connected : Bool} {owner : Owner}
    (h : asking.Places connected owner) : owner.Present ↔ connected = true := by
  cases asking with
  | idle =>
    cases connected with
    | true =>
      have ho : owner = .idle := h
      exact iff_of_true (ho ▸ trivial) rfl
    | false =>
      have ho : owner = .gone := h
      exact iff_of_false (ho ▸ id) nofun
  | writing => exact iff_of_true (h.2 ▸ trivial) h.1
  | awaiting => exact iff_of_true h.2.present h.1
  | leaving =>
    obtain ⟨rfl, hleaves⟩ := h
    refine iff_of_false (fun hp => ?_) nofun
    cases owner with
    | idle | reading | ending | gone => cases hleaves
    | leaving | releasing | joining => exact hp

theorem Serving.Fits.present_iff {serving : Serving} {owner : Owner} (h : serving.Fits owner) :
    owner.Present ↔ serving.IsActive := by
  cases serving with
  | reading => exact iff_of_true (Owner.Wants.present h) (.inl rfl)
  | writing left =>
    have ho : owner = .idle := h
    exact iff_of_true (ho ▸ trivial) (.inr ⟨left, rfl⟩)
  | leaving status =>
    refine iff_of_false (fun hp => ?_) (not_isActive_leaving status)
    cases owner with
    | idle | reading | ending | gone => cases h
    | leaving | releasing | joining => exact hp
  | done status =>
    have ho : owner = .gone := h
    exact iff_of_false (ho ▸ id) (not_isActive_done status)

theorem Asking.Places.left_eq_nil {asking : Asking} {connected : Bool} {owner : Owner}
    (h : asking.Places connected owner) (hc : connected = false) : asking.left = [] := by
  cases asking with
  | idle | awaiting | leaving => rfl
  | writing => rw [h.1] at hc; cases hc

theorem Serving.left_eq_nil {serving : Serving} (h : ¬serving.IsActive) : serving.left = [] := by
  cases serving with
  | reading | leaving | done => rfl
  | writing left => exact absurd (.inr ⟨left, rfl⟩) h

/-! ## How far a send has come -/

/-- A frame of this body is told in this way, and if it is a message nothing of it is left. -/
def Receiver.Tells.OfEncode (max : UInt32) (body : List UInt8) (report : Report)
    (left : List UInt8) : Prop :=
  (∀ ending, ({ max, pending := Frame.encode body, ending } : Receiver).read =
    (some report, { max, pending := left, ending })) ∧ ∀ message, report = .ok message → left = []

namespace Dialogue

/-- How far a client and a worker have come since an exchange, by where they stand, whether the
wires are open, and what is on its way to the worker and to the client. -/
inductive Stage (handler : Handler σ) (max serverMax : UInt32) (exchange : Exchange σ)
    (connected : Bool) (asking : Asking) (serving : Serving) (state : σ) (isOpen : Bool)
    (requests responses : List UInt8) : Prop
  /-- Nothing is on its way. -/
  | quiet (hc : connected = true) (ha : asking = .idle) (hs : serving.IsActive)
      (ho : isOpen = true) (hq : requests = []) (hr : responses = [])
      (hx : exchange = .ready max serverMax state)
  /-- A request is on its way. -/
  | asked {request : Message} (hc : connected = true) (ha : asking.request? = some request)
      (hs : serving.IsActive) (ho : isOpen = true)
      (hfits : request.encode.length ≤ max.toNat)
      (hq : requests = Frame.encode request.encode) (hr : responses = [])
      (hx : exchange = .ready max serverMax state)
  /-- The response is on its way. -/
  | answering {request response : Message} {told : Report} {left : List UInt8}
      (hc : connected = true) (ha : asking.request? = some request) (hs : serving.IsActive)
      (ho : isOpen = true) (hq : requests = []) (hr : responses = Frame.encode response.encode)
      (ht : Receiver.Tells.OfEncode max response.encode told left)
      (hx : exchange.Comes handler request told (.ready max serverMax state))
  /-- The worker gives the connection up instead of a response. -/
  | refusing {request : Message} (hc : connected = true) (ha : asking.request? = some request)
      (hs : ¬serving.IsActive) (hr : responses = [])
      (hx : exchange.Fails handler request .closed state)
  /-- The client gives the connection up over an error. -/
  | leaving {request : Message} {error : TransportError} (hc : connected = false)
      (ha : asking = .leaving request error) (hs : serving.IsActive → requests = [])
      (hx : exchange.Fails handler request error state)
  /-- The client has given the connection up. -/
  | lost (hc : connected = false) (ha : asking = .idle) (hs : serving.IsActive → requests = [])
      (hx : exchange.client.connected = false) (hk : exchange.state = state)

namespace Stage

variable {handler : Handler σ} {max serverMax : UInt32} {exchange : Exchange σ} {connected : Bool}
  {asking asking' : Asking} {serving : Serving} {state : σ} {isOpen isOpen' : Bool}
  {requests responses : List UInt8} {request : Message}

/-- The wires stay open as long as both ends are there. -/
theorem fades (h : Stage handler max serverMax exchange connected asking serving state isOpen
      requests responses)
    (ho : connected = true → serving.IsActive → isOpen' = isOpen) :
    Stage handler max serverMax exchange connected asking serving state isOpen' requests
      responses := by
  cases h with
  | quiet hc ha hs hopen hq hr hx => exact .quiet hc ha hs ((ho hc hs).trans hopen) hq hr hx
  | asked hc ha hs hopen hfits hq hr hx =>
    exact .asked hc ha hs ((ho hc hs).trans hopen) hfits hq hr hx
  | answering hc ha hs hopen hq hr ht hx =>
    exact .answering hc ha hs ((ho hc hs).trans hopen) hq hr ht hx
  | refusing hc ha hs hr hx => exact .refusing hc ha hs hr hx
  | leaving hc ha hs hx => exact .leaving hc ha hs hx
  | lost hc ha hs hx hk => exact .lost hc ha hs hx hk

theorem asks (h : Stage handler max serverMax exchange connected asking serving state isOpen
      requests responses)
    (hc : connected = true) (ha : asking.request? = some request)
    (ha' : asking'.request? = some request) :
    Stage handler max serverMax exchange connected asking' serving state isOpen requests
      responses := by
  have hsame : ∀ {other}, asking.request? = some other → asking'.request? = some other :=
    fun hother => ha'.trans (ha.symm.trans hother)
  cases h with
  | quiet _ hidle =>
    rw [hidle] at ha
    cases ha
  | asked hc ha hs ho hfits hq hr hx => exact .asked hc (hsame ha) hs ho hfits hq hr hx
  | answering hc ha hs ho hq hr ht hx => exact .answering hc (hsame ha) hs ho hq hr ht hx
  | refusing hc ha hs hr hx => exact .refusing hc (hsame ha) hs hr hx
  | leaving hlost | lost hlost =>
    rw [hlost] at hc
    cases hc

theorem serves {serving' : Serving} (h : Stage handler max serverMax exchange connected asking
      serving state isOpen requests responses) (hs : serving.IsActive ↔ serving'.IsActive) :
    Stage handler max serverMax exchange connected asking serving' state isOpen requests
      responses := by
  cases h with
  | quiet hc ha hactive ho hq hr hx => exact .quiet hc ha (hs.mp hactive) ho hq hr hx
  | asked hc ha hactive ho hfits hq hr hx => exact .asked hc ha (hs.mp hactive) ho hfits hq hr hx
  | answering hc ha hactive ho hq hr ht hx =>
    exact .answering hc ha (hs.mp hactive) ho hq hr ht hx
  | refusing hc ha hnot hr hx => exact .refusing hc ha (mt hs.mpr hnot) hr hx
  | leaving hc ha hnone hx => exact .leaving hc ha (fun hactive => hnone (hs.mpr hactive)) hx
  | lost hc ha hnone hx hk => exact .lost hc ha (fun hactive => hnone (hs.mpr hactive)) hx hk

theorem isOpen_eq (h : Stage handler max serverMax exchange connected asking serving state isOpen
      requests responses) (hc : connected = true) (hs : serving.IsActive) : isOpen = true := by
  cases h with
  | quiet _ _ _ ho | asked _ _ _ ho | answering _ _ _ ho => exact ho
  | refusing _ _ hnot => exact absurd hs hnot
  | leaving hlost | lost hlost =>
    rw [hlost] at hc
    cases hc

end Stage

/-- The client and the worker have come some way since this exchange, and these bytes are on their
way to the worker and to the client. -/
structure Stands (handler : Handler σ) (capacity serverCapacity : Nat) (max serverMax : UInt32)
    (exchange : Exchange σ) (requests responses : List UInt8) (dialogue : Dialogue σ) : Prop where
  same : dialogue.worker.handler = handler
  limit : dialogue.caller.client.max = max
  worker : dialogue.worker.intake.Flows serverCapacity serverMax dialogue.requests
    dialogue.caller.asking.left requests
  caller : dialogue.caller.intake.Flows capacity max dialogue.responses
    dialogue.worker.serving.left responses
  stage : Stage handler max serverMax exchange dialogue.caller.client.connected
    dialogue.caller.asking dialogue.worker.serving dialogue.worker.state
    (dialogue.requests.isOpen && dialogue.responses.isOpen) requests responses

/-- The client has been told what the same sends come to in an exchange. -/
def Settled (handler : Handler σ) (capacity serverCapacity : Nat) (max serverMax : UInt32)
    (start : Exchange σ) (dialogue : Dialogue σ) : Prop :=
  ∃ exchange requests responses, Exchange.Sent handler start dialogue.caller.answered exchange ∧
    dialogue.Stands handler capacity serverCapacity max serverMax exchange requests responses

variable {handler : Handler σ} {capacity serverCapacity room serverRoom : Nat}
  {max serverMax : UInt32} {start exchange : Exchange σ} {requests responses : List UInt8}
  {dialogue next : Dialogue σ} {request : Message}

/-- The client gives the connection up, and has still to tell why. -/
theorem settled_of_abandon {caller : Caller} {error : TransportError}
    (hd : dialogue.caller = caller.abandon request error)
    (hsent : Exchange.Sent handler start caller.answered exchange)
    (hsame : dialogue.worker.handler = handler) (hlimit : caller.client.max = max)
    (hflow : dialogue.worker.intake.Flows serverCapacity serverMax dialogue.requests [] requests)
    (hs : dialogue.worker.serving.IsActive → requests = [])
    (hx : exchange.Fails handler request error dialogue.worker.state) :
    dialogue.Settled handler capacity serverCapacity max serverMax start := by
  refine ⟨exchange, requests, [], by rw [hd]; exact hsent, hsame, by rw [hd]; exact hlimit, ?_, ?_,
    .leaving (by rw [hd]; rfl) (by rw [hd]; rfl) hs hx⟩
  · rw [hd]
    exact hflow
  · rw [hd]
    exact False.elim

section Turns

variable
  (hsent : Exchange.Sent handler start dialogue.caller.answered exchange)
  (h : dialogue.Stands handler capacity serverCapacity max serverMax exchange requests responses)
include hsent h

theorem Stands.asks {caller : Caller} (ha : dialogue.caller.ask request = some caller) :
    ({ dialogue with caller } : Dialogue σ).Settled handler capacity serverCapacity max serverMax
      start := by
  unfold Caller.ask at ha
  split at ha
  · next hidle =>
    have hrequests := h.worker
    rw [hidle] at hrequests
    cases h.stage with
    | quiet hc _ hactive ho hq hr hx =>
      obtain rfl := hx
      obtain rfl := hq
      obtain rfl := hr
      simp only [hc, Bool.not_true, Bool.false_eq_true, if_false, h.limit,
        Option.some.injEq] at ha
      by_cases hle : request.encode.length ≤ max.toNat
      · rw [Message.frame_of_le hle] at ha
        obtain rfl := ha
        have hopen : dialogue.requests.isOpen = true := (Bool.and_eq_true_iff.mp ho).1
        exact ⟨_, _, _, hsent, h.same, h.limit, hrequests.begins hopen _, h.caller,
          .asked hc rfl hactive ho hle rfl rfl rfl⟩
      · rw [Message.frame_of_lt (Nat.lt_of_not_le hle)] at ha
        obtain rfl := ha
        exact settled_of_abandon rfl hsent h.same h.limit hrequests (fun _ => rfl)
          (Exchange.fails_of_lt (Nat.lt_of_not_le hle) _)
    | lost hc _ hnone hx hk =>
      simp only [hc, Bool.not_false, if_true, Option.some.injEq] at ha
      obtain rfl := ha
      have hsend : exchange.send handler request = (.error .closed, exchange) := by
        simp only [Exchange.send, hx, Bool.false_eq_true, if_false]
      exact ⟨exchange, requests, responses, hsent.more hsend, h.same, h.limit, h.worker,
        h.caller, .lost hc hidle hnone hx hk⟩
    | asked _ hother | answering _ hother | refusing _ hother =>
      rw [hidle] at hother
      cases hother
    | leaving _ hother =>
      rw [hidle] at hother
      cases hother
  · cases ha

variable (hs : dialogue.Steady capacity serverCapacity room serverRoom)
include hs

theorem Stands.callerWrites {n : Nat} {caller : Caller} {bytes : List UInt8} {wire : Wire}
    (hp : dialogue.caller.push n = some (caller, bytes))
    (hw : dialogue.requests.Takes bytes wire) :
    ({ dialogue with caller, requests := wire } : Dialogue σ).Settled handler capacity
      serverCapacity max serverMax start := by
  have hplaces := hs.caller.places
  have hworker := h.worker
  have hopen : (wire.isOpen && dialogue.responses.isOpen) =
      (dialogue.requests.isOpen && dialogue.responses.isOpen) := by rw [hw.isOpen]
  unfold Caller.push at hp
  split at hp
  · next hasking =>
    cases hp
    rw [hasking] at hplaces hworker
    obtain ⟨hc, ho⟩ := hplaces
    have hread : dialogue.caller.intake.step .read =
        some ({ dialogue.caller.intake with owner := .reading .start }, none) := by
      rw [Intake.step, ho]
    refine ⟨exchange, requests, responses, hsent, h.same, h.limit, hworker.takes hw,
      h.caller.goes rfl (fun _ => ho ▸ trivial) hread, ?_⟩
    exact (h.stage.asks hc (by rw [hasking]; rfl) rfl).fades fun _ _ => hopen
  · next left hne hasking =>
    split at hp
    · cases hp
    · cases hp
      rw [hasking] at hplaces hworker
      have hleft : dialogue.worker.intake.Flows serverCapacity serverMax dialogue.requests
          (left.take n ++ left.drop n) requests := by
        rw [List.take_append_drop]
        exact hworker
      refine ⟨exchange, requests, responses, hsent, h.same, h.limit, hleft.takes hw, h.caller, ?_⟩
      exact (h.stage.asks hplaces.1 (by rw [hasking]; rfl) rfl).fades fun _ _ => hopen
  · cases hp

/-- A client that finds its wire closed is told what it would have been told at the end. -/
theorem Stands.callerMeets {caller : Caller}
    (hb : dialogue.caller.breakOff .brokenPipe = some caller)
    (hw : dialogue.requests.isOpen = false) :
    ({ dialogue with caller } : Dialogue σ).Settled handler capacity serverCapacity max serverMax
      start := by
  unfold Caller.breakOff at hb
  split at hb
  · next hasking =>
    obtain rfl := Option.some.inj hb
    rw [Caller.conclude_of_error rfl]
    cases h.stage with
    | quiet _ hother | lost _ hother | leaving _ hother =>
      rw [hasking] at hother
      cases hother
    | asked _ _ _ ho | answering _ _ _ ho =>
      rw [hw] at ho
      cases ho
    | refusing hc ha hnot hr hx =>
      rw [hasking] at ha
      cases ha
      have hgone : dialogue.worker.intake.Flows serverCapacity serverMax dialogue.requests []
          requests := fun hp => absurd (hs.worker.fits.present_iff.mp hp) hnot
      exact settled_of_abandon rfl hsent h.same h.limit hgone
        (fun hactive => absurd hactive hnot) hx
  · cases hb

theorem Stands.workerWrites {n : Nat} {worker : Worker σ} {bytes : List UInt8} {wire : Wire}
    (hp : dialogue.worker.push n = some (worker, bytes))
    (hw : dialogue.responses.Takes bytes wire) :
    ({ dialogue with worker, responses := wire } : Dialogue σ).Settled handler capacity
      serverCapacity max serverMax start := by
  have hfits := hs.worker.fits
  have hcaller := h.caller
  have hopen : (dialogue.requests.isOpen && wire.isOpen) =
      (dialogue.requests.isOpen && dialogue.responses.isOpen) := by rw [hw.isOpen]
  have hstage := h.stage
  unfold Worker.push at hp
  split at hp
  · next hserving =>
    cases hp
    rw [hserving] at hfits hcaller hstage
    have ho : dialogue.worker.intake.owner = .idle := hfits
    have hread : dialogue.worker.intake.step .read =
        some ({ dialogue.worker.intake with owner := .reading .start }, none) := by
      rw [Intake.step, ho]
    refine ⟨exchange, requests, responses, hsent, h.same, h.limit,
      h.worker.goes rfl (fun _ => ho ▸ trivial) hread, hcaller.takes hw, ?_⟩
    exact (hstage.serves (iff_of_true (.inr ⟨_, rfl⟩) (.inl rfl))).fades fun _ _ => hopen
  · next left hne hserving =>
    split at hp
    · cases hp
    · cases hp
      rw [hserving] at hcaller hstage
      have hleft : dialogue.caller.intake.Flows capacity max dialogue.responses
          (left.take n ++ left.drop n) responses := by
        rw [List.take_append_drop]
        exact hcaller
      refine ⟨exchange, requests, responses, hsent, h.same, h.limit, h.worker, hleft.takes hw, ?_⟩
      exact (hstage.serves (iff_of_true (.inr ⟨_, rfl⟩) (.inr ⟨_, rfl⟩))).fades fun _ _ => hopen
  · cases hp

/-- A worker finds its wire closed only when the client has given the connection up. -/
theorem Stands.workerMeets {worker : Worker σ}
    (hb : dialogue.worker.breakOff .brokenPipe = some worker)
    (hw : dialogue.responses.isOpen = false) :
    ({ dialogue with worker } : Dialogue σ).Settled handler capacity serverCapacity max serverMax
      start := by
  have hplaces := hs.caller.places
  unfold Worker.breakOff at hb
  split at hb
  · next left hserving =>
    obtain rfl := Option.some.inj hb
    have hnot := Serving.not_isActive_leaving (.dropped (.frame (.failed .brokenPipe)))
    have hgone (hc : dialogue.caller.client.connected = false) :
        dialogue.caller.intake.Flows capacity max dialogue.responses [] responses := by
      intro hp
      rw [hplaces.present_iff.mp hp] at hc
      cases hc
    cases h.stage with
    | quiet _ _ _ ho | asked _ _ _ ho | answering _ _ _ ho =>
      rw [hw, Bool.and_false] at ho
      cases ho
    | refusing _ _ hgone => exact absurd (.inr ⟨left, hserving⟩) hgone
    | leaving hc ha hnone hx =>
      exact ⟨exchange, requests, responses, hsent, h.same, h.limit, False.elim, hgone hc,
        .leaving hc ha (fun hactive => absurd hactive hnot) hx⟩
    | lost hc ha hnone hx hk =>
      exact ⟨exchange, requests, responses, hsent, h.same, h.limit, False.elim, hgone hc,
        .lost hc ha (fun hactive => absurd hactive hnot) hx hk⟩
  · cases hb

theorem Stands.pulls {side : Side} {n : Nat} {bytes : List UInt8} {wire : Wire}
    {intake : Intake} (hn : 0 < n)
    (hr : (dialogue.incoming side).receive n = some (bytes, wire))
    (ha : (dialogue.intake side).arrive (.ok bytes) = some intake) :
    ((dialogue.setIntake side intake).setIncoming side wire).Settled handler capacity
      serverCapacity max serverMax start := by
  have hcaller := hs.caller.places.present_iff
  have hworker := hs.worker.fits.present_iff
  have hopen := Wire.isOpen_of_receive hr
  -- An end that finds its wire closed is the one that is there no more, or has nothing to come.
  cases side with
  | client =>
    have hleft (hp : dialogue.caller.intake.owner.Present)
        (hclosed : dialogue.responses.isOpen = false) : dialogue.worker.serving.left = [] := by
      refine Serving.left_eq_nil fun hactive => ?_
      have hboth := h.stage.isOpen_eq (hcaller.mp hp) hactive
      rw [hclosed, Bool.and_false] at hboth
      cases hboth
    exact ⟨exchange, requests, responses, hsent, h.same, h.limit, h.worker,
      h.caller.pulls hn hr ha hleft, h.stage.fades fun _ _ => congrArg (_ && ·) hopen⟩
  | server =>
    have hleft (hp : dialogue.worker.intake.owner.Present)
        (hclosed : dialogue.requests.isOpen = false) : dialogue.caller.asking.left = [] := by
      cases hc : dialogue.caller.client.connected with
      | false => exact hs.caller.places.left_eq_nil hc
      | true =>
        have hboth := h.stage.isOpen_eq hc (hworker.mp hp)
        rw [hclosed] at hboth
        cases hboth
    exact ⟨exchange, requests, responses, hsent, h.same, h.limit,
      h.worker.pulls hn hr ha hleft, h.caller, h.stage.fades fun _ _ => congrArg (· && _) hopen⟩

omit hs in
theorem Stands.pumps {side : Side} {intake : Intake}
    (hp : (dialogue.intake side).pumpTurn = some intake) :
    (dialogue.setIntake side intake).Settled handler capacity serverCapacity max serverMax
      start := by
  cases side with
  | client =>
    exact ⟨exchange, requests, responses, hsent, h.same, h.limit, h.worker, h.caller.pumps hp,
      h.stage⟩
  | server =>
    exact ⟨exchange, requests, responses, hsent, h.same, h.limit, h.worker.pumps hp, h.caller,
      h.stage⟩

omit hs in
/-- What becomes of a response when its client is told of it. -/
theorem Stands.hears {intake : Intake} {report : Report} {left : List UInt8} {wire wire' : Wire}
    (hc : dialogue.caller.client.connected = true) (hactive : dialogue.worker.serving.IsActive)
    (hworker : dialogue.worker.intake.Flows serverCapacity serverMax wire [] [])
    (hopen : (({ dialogue.caller with intake } : Caller).conclude request
      report).client.connected = true → (wire.isOpen && wire'.isOpen) = true)
    (hnext : intake.Flows capacity max wire' dialogue.worker.serving.left left)
    (hleft : ∀ message, report = .ok message → left = [])
    (hx : exchange.Comes handler request report (.ready max serverMax dialogue.worker.state)) :
    ({ dialogue with
      caller := ({ dialogue.caller with intake } : Caller).conclude request report
      requests := wire
      responses := wire' } : Dialogue σ).Settled handler capacity serverCapacity max serverMax
        start := by
  rw [Exchange.Comes] at hx
  cases hresult : Client.responseOf report with
  | ok message =>
    rw [hresult] at hx
    rw [Caller.conclude_of_ok hresult] at hopen ⊢
    obtain rfl : left = [] := hleft _ (Client.eq_of_responseOf hresult)
    exact ⟨_, _, _, hsent.more hx, h.same, h.limit, hworker, hnext,
      .quiet hc rfl hactive (hopen hc) rfl rfl rfl⟩
  | error error =>
    rw [hresult] at hx
    rw [Caller.conclude_of_error hresult]
    exact settled_of_abandon rfl hsent h.same h.limit hworker (fun _ => rfl) hx

/-- **A turn of the client** goes on, brings its result, or is the last one of giving up. -/
theorem Stands.callerTurns {caller : Caller} {wire wire' : Wire}
    (ht : dialogue.caller.turn = some caller) (hq : dialogue.requests.Fades wire)
    (hr : dialogue.responses.Fades wire')
    (hopen : caller.client.connected = true →
      (wire.isOpen && wire'.isOpen) = (dialogue.requests.isOpen && dialogue.responses.isOpen)) :
    ({ dialogue with caller, requests := wire, responses := wire' } : Dialogue σ).Settled handler
      capacity serverCapacity max serverMax start := by
  have hworker := h.worker.fades hq
  have hcaller := h.caller.fades hr
  have hplaces := hs.caller.places
  cases hs.caller.turn_of_turn ht with
  | @goes intake hstep hp =>
    have hpresent : intake.owner.Present → dialogue.caller.intake.owner.Present := fun hnext =>
      hplaces.present_iff.mpr (hp.present_iff.mp hnext)
    exact ⟨exchange, requests, responses, hsent, h.same, h.limit, hworker,
      hcaller.goes rfl hpresent hstep, h.stage.fades fun hc _ => hopen hc⟩
  | @told request intake report ha hstep ho =>
    rw [ha] at hplaces hworker
    have hpresent := hplaces.2.present
    cases h.stage with
    | quiet _ hother | lost _ hother | leaving _ hother =>
      rw [ha] at hother
      cases hother
    | asked _ _ _ hboth _ _ hnone =>
      obtain rfl := hnone
      obtain ⟨-, hclosed, -⟩ := h.caller.told_of_nil hpresent hstep
      rw [hclosed, Bool.and_false] at hboth
      cases hboth
    | @answering request' response told left hc hasked hactive hboth hnone hencode ht hx =>
      rw [ha] at hasked
      cases hasked
      obtain rfl := hnone
      obtain rfl := hencode
      obtain ⟨rfl, hnext⟩ := hcaller.told_of_encode hpresent hstep ht.1
      exact h.hears hsent hc hactive hworker (fun hnow => (hopen hnow).trans hboth) hnext ht.2 hx
    | refusing hc hasked hnot hnone hx =>
      rw [ha] at hasked
      cases hasked
      obtain rfl := hnone
      obtain ⟨rfl, -, -⟩ := h.caller.told_of_nil hpresent hstep
      rw [Caller.conclude_of_error rfl]
      exact settled_of_abandon rfl hsent h.same h.limit hworker
        (fun hactive => absurd hactive hnot) hx
  | @parts request error intake ha hstep ho =>
    rw [ha] at hplaces hworker
    cases h.stage with
    | quiet hc | asked hc | answering hc | refusing hc =>
      rw [hplaces.1] at hc
      cases hc
    | lost _ hother =>
      rw [ha] at hother
      cases hother
    | leaving hc hother hnone hx =>
      rw [ha] at hother
      cases hother
      obtain ⟨exchange', hsend, hlost, hkept⟩ := hx
      have hgone : ¬intake.owner.Present := ho ▸ id
      exact ⟨exchange', requests, responses, hsent.more hsend, h.same, h.limit, hworker,
        fun hp => absurd hp hgone, .lost hc rfl hnone hlost hkept⟩

omit hs in
theorem Stands.judges {intake : Intake} {report : Report} {left : List UInt8} {wire wire' : Wire}
    (hc : dialogue.caller.client.connected = true)
    (ha : dialogue.caller.asking.request? = some request)
    (hfits : request.encode.length ≤ max.toNat) (hnone : responses = [])
    (hx : exchange = .ready max serverMax dialogue.worker.state)
    (ho : intake.owner = .idle) (hserving : dialogue.worker.serving = .reading)
    (hr : dialogue.responses.Fades wire')
    (hopen : (({ dialogue.worker with intake } : Worker σ).take report).serving.IsActive →
      (wire.isOpen && wire'.isOpen) = true)
    (hnext : intake.Flows serverCapacity serverMax wire dialogue.caller.asking.left left)
    (hread : Receiver.Tells.OfEncode serverMax request.encode report left) :
    ({ dialogue with
      worker := ({ dialogue.worker with intake } : Worker σ).take report
      requests := wire
      responses := wire' } : Dialogue σ).Settled handler capacity serverCapacity max serverMax
        start := by
  obtain rfl := hnone
  obtain rfl := hx
  have hmax : intake.max = serverMax := hnext.max_eq (ho ▸ trivial)
  have hcaller := h.caller.fades hr
  rw [hserving] at hcaller
  have hfirst := hread.1 none
  cases hj : handler.judge serverMax dialogue.worker.state report with
  | mk answer kept =>
    have hjudge : (({ dialogue.worker with intake } : Worker σ)).handler.judge intake.max
        dialogue.worker.state report = (answer, kept) := by rw [hmax, ← hj, ← h.same]
    cases answer with
    | none =>
      obtain ⟨handled, status, htake⟩ := Worker.take_of_end hjudge
      rw [htake]
      exact ⟨_, left, [], hsent, h.same, h.limit, False.elim, hcaller,
        .refusing hc ha (Serving.not_isActive_leaving status) rfl
          (Exchange.fails_of_end hfits hfirst hj)⟩
    | some response =>
      obtain ⟨⟨message, rfl⟩, hle⟩ := Handler.of_judge hj
      obtain rfl : left = [] := hread.2 _ rfl
      obtain ⟨handled, htake⟩ := Worker.take_of_response hjudge
      have hsize : response.encode.length < UInt32.size :=
        Nat.lt_of_le_of_lt hle serverMax.toNat_lt
      obtain ⟨told, after, htold⟩ := Receiver.exists_read_encode max hsize
      rw [htake] at hopen
      have hboth := hopen (.inr ⟨_, rfl⟩)
      have hready : wire'.isOpen = true := (Bool.and_eq_true_iff.mp hboth).2
      rw [htake]
      exact ⟨_, [], Frame.encode response.encode, hsent, h.same, h.limit, hnext,
        hcaller.begins hready _, .answering hc ha (.inr ⟨_, rfl⟩) hboth rfl rfl htold
          (Exchange.comes_of_response hfits hfirst hj (htold.1 none) htold.2)⟩

/-- **A turn of the worker** goes on, hands a request over, or leads to the end of its service. -/
theorem Stands.workerTurns {worker : Worker σ} {wire wire' : Wire}
    (ht : dialogue.worker.turn = some worker) (hq : dialogue.requests.Fades wire)
    (hr : dialogue.responses.Fades wire')
    (hopen : worker.serving.IsActive →
      (wire.isOpen && wire'.isOpen) = (dialogue.requests.isOpen && dialogue.responses.isOpen)) :
    ({ dialogue with worker, requests := wire, responses := wire' } : Dialogue σ).Settled handler
      capacity serverCapacity max serverMax start := by
  have hworker := h.worker.fades hq
  have hcaller := h.caller.fades hr
  have hfits := hs.worker.fits
  cases Worker.turn_of_step hs.worker.intake hfits (Worker.step_of_turn ht) with
  | @goes _ inner intake hm hgoes hf =>
    cases hm
    have hpresent : intake.owner.Present → dialogue.worker.intake.owner.Present := fun hnext =>
      hfits.present_iff.mpr (hf.present_iff.mp hnext)
    exact ⟨exchange, requests, responses, hsent, h.same, h.limit,
      hworker.goes rfl hpresent hgoes, hcaller, h.stage.fades fun _ hactive => hopen hactive⟩
  | @told intake report hserving htold ho =>
    have hactive : dialogue.worker.serving.IsActive := .inl hserving
    have hpresent := hfits.present_iff.mpr hactive
    -- With nothing on its way the worker is told the end, of a wire that the client has closed.
    have hends (hnone : requests = []) : report = .ok none ∧ dialogue.requests.isOpen = false := by
      obtain rfl := hnone
      obtain ⟨hreport, hclosed, -⟩ := h.worker.told_of_nil hpresent htold
      exact ⟨hreport, hclosed⟩
    have hnot := Serving.not_isActive_leaving .closed
    rw [hserving] at hcaller
    cases h.stage with
    | quiet _ _ _ hboth hnone | answering _ _ _ hboth hnone =>
      rw [(hends hnone).2] at hboth
      cases hboth
    | @asked request hc ha _ hboth hfits hencode hnone hx =>
      obtain rfl := hencode
      have hsize : request.encode.length < UInt32.size :=
        Nat.lt_of_le_of_lt hfits max.toNat_lt
      obtain ⟨report', left, hread⟩ := Receiver.exists_read_encode serverMax hsize
      obtain ⟨rfl, hnext⟩ := hworker.told_of_encode hpresent htold hread.1
      exact h.judges hsent hc ha hfits hnone hx ho hserving hr
        (fun hnow => (hopen hnow).trans hboth) hnext hread
    | refusing _ _ hgone => exact absurd hactive hgone
    | leaving hc ha hnone hx =>
      obtain ⟨rfl, -⟩ := hends (hnone hactive)
      exact ⟨exchange, requests, responses, hsent, h.same, h.limit, False.elim, hcaller,
        .leaving hc ha (fun hnow => absurd hnow hnot) hx⟩
    | lost hc ha hnone hx hk =>
      obtain ⟨rfl, -⟩ := hends (hnone hactive)
      exact ⟨exchange, requests, responses, hsent, h.same, h.limit, False.elim, hcaller,
        .lost hc ha (fun hnow => absurd hnow hnot) hx hk⟩
  | @ends intake status hserving hends ho =>
    have hgone : ¬intake.owner.Present := ho ▸ id
    rw [hserving] at hcaller
    have hnot := Serving.not_isActive_leaving status
    have hnot' := Serving.not_isActive_done status
    have hstage := h.stage
    rw [hserving] at hstage
    exact ⟨exchange, requests, responses, hsent, h.same, h.limit, fun hp => absurd hp hgone,
      hcaller, (hstage.serves (iff_of_false hnot hnot')).fades
        fun _ hactive => absurd hactive hnot'⟩

end Turns

end Dialogue

end Parley
