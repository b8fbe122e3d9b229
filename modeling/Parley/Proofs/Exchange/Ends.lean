import Parley.Proofs.Exchange.Ledger
import Parley.Proofs.Exchange.Turns
import Parley.Proofs.Transport.Reports

/-!
# Each end and the ledger

As long as an end has not given its connection up it is in step with the ledger: what it has
received, what the wire to it holds and what the other end has still to write come to the
frames of the messages that are pending for it. An end that has quit writes nothing and reads
nothing, so that the ledger holds of it for good.

**Turns.** A turn of the worker (`Worker.InStep.step`) writes a part of a response, hands the
first pending request to the handler, or makes it quit. A turn of the client
(`Caller.InStep.turn`) brings the pending response or makes it quit.
-/

namespace Parley

open Transport (Intake Owner)

variable {σ : Type}

variable {ledger : Ledger} {max : UInt32} {capacity : Nat} {held : List UInt8}

/-! ## The worker's end -/

namespace Worker

variable {worker worker' : Worker σ} {move : Move} {bytes : List UInt8}

/-- The worker reads or writes, as the ledger has it. What its wire holds and what the client
has still to write come behind what it has received. -/
structure InStep (capacity : Nat) (max : UInt32) (ledger : Ledger) (held : List UInt8)
    (worker : Worker σ) : Prop where
  max : worker.intake.max = max
  handled : worker.handled = ledger.handled
  left : ledger.responsesLeft = worker.serving.left
  active : worker.serving = .reading ∨ ∃ left, worker.serving = .writing left
  fits : worker.serving.Fits worker.intake.owner
  expects : worker.intake.Expects capacity (held ++ ledger.requestsLeft)
    (frames ledger.pendingRequests)

/-- The worker gives the connection up or has done so. -/
structure HasQuit (ledger : Ledger) (worker : Worker σ) : Prop where
  handled : worker.handled = ledger.handled
  stands : (∃ status, worker.serving = .leaving status) ∨ ∃ status, worker.serving = .done status

theorem InStep.present (h : worker.InStep capacity max ledger held) :
    worker.intake.owner.Present := by
  have hfits := h.fits
  rcases h.active with hs | ⟨left, hs⟩
  · rw [hs] at hfits
    exact Owner.Wants.present hfits
  · rw [hs] at hfits
    have hidle : worker.intake.owner = .idle := hfits
    rw [hidle]
    trivial

theorem InStep.begin (h : worker.InStep capacity max ledger held) (hb : ledger.Balanced max)
    (hleft : ledger.requestsLeft = []) (request : Message) :
    worker.InStep capacity max { ledger with
      begun := ledger.begun ++ [request], requestsLeft := Frame.encode request.encode } held where
  max := h.max
  handled := h.handled
  left := h.left
  active := h.active
  fits := h.fits
  expects := by
    have hexpects := h.expects.append (Frame.encode request.encode)
    rw [hleft, List.append_nil] at hexpects
    rw [Ledger.pendingRequests_begin hb, frames_append, frames_cons, frames_nil, List.append_nil]
    exact hexpects

theorem InStep.wrote (h : worker.InStep capacity max ledger held) {left : List UInt8}
    (hleft : ledger.requestsLeft = bytes ++ left) :
    worker.InStep capacity max { ledger with requestsLeft := left } (held ++ bytes) where
  max := h.max
  handled := h.handled
  left := h.left
  active := h.active
  fits := h.fits
  expects := by
    have hexpects := h.expects
    rw [hleft, ← List.append_assoc] at hexpects
    exact hexpects

/-- What becomes of a request that is handed to the handler. -/
theorem InStep.handle (h : worker.InStep capacity max ledger held) {intake : Intake}
    {request : Message} {more : List Message} (hnext : ledger.pendingRequests = request :: more)
    (hmax : intake.max = worker.intake.max) (ho : intake.owner = .idle)
    (hexpects : intake.Expects capacity (held ++ ledger.requestsLeft) (frames more)) :
    ∃ reply, let ledger' : Ledger := { ledger with
        handled := ledger.handled ++ [(request.rewind, reply)]
        responsesLeft := frames (reply.within? max).toList }
      (handle { worker with intake } request.rewind).InStep capacity max ledger' held ∨
        (handle { worker with intake } request.rewind).HasQuit ledger' := by
  obtain ⟨reply, next, -, hhandle⟩ := exists_handle { worker with intake } request.rewind
  have hlimit : intake.max = max := hmax.trans h.max
  refine ⟨reply, ?_⟩
  rcases hhandle with ⟨response, hwithin, heq⟩ | ⟨-, status, heq⟩
  · have hsent : reply.within? max = some response := hlimit ▸ hwithin
    refine .inl ?_
    rw [heq]
    exact {
      max := hlimit
      handled := congrArg (· ++ [(request.rewind, reply)]) h.handled
      left := by simp [hsent, Serving.left]
      active := .inr ⟨_, rfl⟩
      fits := ho
      expects := by
        rw [Ledger.pendingRequests_handle hnext]
        exact hexpects }
  · refine .inr ?_
    rw [heq]
    exact ⟨congrArg (· ++ [(request.rewind, reply)]) h.handled, .inl ⟨status, rfl⟩⟩

/-- **A turn of the worker** writes a part of a response, hands a request over, or ends the
service; otherwise it changes nothing. -/
theorem InStep.step (h : worker.InStep capacity max ledger (move.bytes ++ held))
    (hb : ledger.Balanced max) (hs : worker.step move = some (worker', bytes)) :
    (∃ left, ledger.responsesLeft = bytes ++ left ∧
        worker'.InStep capacity max { ledger with responsesLeft := left } held) ∨
      bytes = [] ∧ (worker'.HasQuit ledger ∨
        ∃ request more reply, ledger.pendingRequests = request :: more ∧
          ledger.responsesLeft = [] ∧
          let ledger' : Ledger := { ledger with
            handled := ledger.handled ++ [(request.rewind, reply)]
            responsesLeft := frames (reply.within? max).toList }
          worker'.InStep capacity max ledger' held ∨ worker'.HasQuit ledger') := by
  have hexpects := h.expects
  rw [List.append_assoc] at hexpects
  cases turn_of_step h.expects.sound h.fits hs with
  | @goes _ inner intake hm hstep hf =>
    have hbytes : move.bytes = inner.bytes := by rw [Move.bytes, hm]; rfl
    rw [hbytes] at hexpects
    refine .inl ⟨ledger.responsesLeft, rfl, ?_⟩
    exact {
      max := (Intake.Sound.step_max h.expects.sound hstep).trans h.max
      handled := h.handled
      left := h.left
      active := h.active
      fits := hf
      expects := hexpects.goes h.present hstep }
  | @told intake report hserving hstep ho =>
    have hmax := Intake.Sound.step_max h.expects.sound hstep
    refine .inr ⟨rfl, ?_⟩
    match report with
    | .ok none | .error _ => exact .inl ⟨h.handled, .inl ⟨_, rfl⟩⟩
    | .ok (some message) =>
      obtain ⟨request, more, hnext, rfl, hmore⟩ :=
        hexpects.told hb.fits_pendingRequests hstep
      have hleft := h.left
      rw [hserving] at hleft
      have hhere : worker.InStep capacity max ledger held := h
      obtain ⟨reply, hreply⟩ := hhere.handle hnext hmax ho hmore
      exact .inr ⟨request, more, reply, hnext, hleft, hreply⟩
  | @writes left n hserving hne hn =>
    have hleft := h.left
    have hfits := h.fits
    rw [hserving] at hleft hfits
    refine .inl ⟨left.drop n, hleft.trans (List.take_append_drop n left).symm, ?_⟩
    exact {
      max := h.max
      handled := h.handled
      left := rfl
      active := .inr ⟨_, rfl⟩
      fits := hfits
      expects := hexpects }
  | @reads intake n hserving hstep ho =>
    have hleft := h.left
    rw [hserving] at hleft
    refine .inl ⟨[], hleft, ?_⟩
    exact {
      max := (Intake.Sound.step_max h.expects.sound hstep).trans h.max
      handled := h.handled
      left := rfl
      active := .inl rfl
      fits := ho
      expects := hexpects.goes h.present hstep }
  | ends hserving =>
    rcases h.active with hactive | ⟨left, hactive⟩
    · cases hserving.symm.trans hactive
    · cases hserving.symm.trans hactive

theorem InStep.breakOff {failure : Failure} (h : worker.InStep capacity max ledger held)
    (hb : worker.breakOff failure = some worker') : worker'.HasQuit ledger := by
  unfold Worker.breakOff at hb
  split at hb
  · cases hb; exact ⟨h.handled, .inl ⟨_, rfl⟩⟩
  · cases hb

theorem HasQuit.step (h : worker.HasQuit ledger)
    (hs : worker.step move = some (worker', bytes)) : bytes = [] ∧ worker'.HasQuit ledger := by
  obtain ⟨handler, state, intake, serving, handled⟩ := worker
  obtain ⟨hhandled, hstands⟩ := h
  cases move with
  | arrive | pump =>
    obtain ⟨next, -, heq⟩ := Option.map_eq_some_iff.mp hs
    cases heq
    exact ⟨rfl, hhandled, hstands⟩
  | owner =>
    obtain ⟨next, hturn, heq⟩ := Option.map_eq_some_iff.mp hs
    cases heq
    simp only [turn, Option.bind_eq_bind, Option.bind_eq_some_iff, Option.pure_def,
      Option.some.injEq] at hturn
    obtain ⟨⟨intake', report⟩, -, rfl⟩ := hturn
    refine ⟨rfl, ?_⟩
    split
    · rcases hstands with ⟨status, hserving⟩ | ⟨status, hserving⟩
      · cases hserving
      · cases hserving
    · exact ⟨hhandled, .inr ⟨_, rfl⟩⟩
    · exact ⟨hhandled, hstands⟩
  | push n =>
    rcases hstands with ⟨status, rfl⟩ | ⟨status, rfl⟩ <;> cases hs

theorem HasQuit.breakOff {failure : Failure} (h : worker.HasQuit ledger) :
    worker.breakOff failure = none := by
  unfold Worker.breakOff
  rcases h.stands with ⟨status, hserving⟩ | ⟨status, hserving⟩
  · rw [hserving]
  · rw [hserving]

end Worker

/-! ## The client's end -/

/-- The request that a client is in the middle of. -/
def Asking.request? : Asking → Option Message
  | idle => none
  | writing request _ | awaiting request | leaving request _ => some request

/-- The bytes of a request that are left to be written. -/
def Asking.left : Asking → List UInt8
  | writing _ left => left
  | idle | awaiting _ | leaving _ _ => []

/-- Where the owner of a connection is while its client has not given it up. -/
def Asking.Fits : Asking → Owner → Prop
  | idle, owner | writing _ _, owner => owner = .idle
  | awaiting _, owner => owner.Wants
  | leaving _ _, _ => False

namespace Caller

variable {caller caller' : Caller} {request : Message} {bytes : List UInt8}

/-- The requests that the client was asked to send, in order. -/
def asked (caller : Caller) : List Message :=
  caller.answered.map Prod.fst ++ caller.asking.request?.toList

/-- The client still has its connection, as the ledger has it. What its wire holds and what the
worker has still to write come behind what it has received. -/
structure InStep (capacity : Nat) (max : UInt32) (ledger : Ledger) (held : List UInt8)
    (caller : Caller) : Prop where
  connected : caller.client.connected = true
  answered : caller.answered = ledger.answered.map fun entry => (entry.1, .ok entry.2)
  begun : ledger.begun = ledger.answered.map Prod.fst ++ caller.asking.request?.toList
  left : ledger.requestsLeft = caller.asking.left
  fits : caller.asking.Fits caller.intake.owner
  expects : caller.intake.Expects capacity (held ++ ledger.responsesLeft)
    (frames (ledger.pendingResponses max))

/-- The client gives the connection up or has done so, and there are only errors from then
on. -/
structure HasQuit (ledger : Ledger) (caller : Caller) : Prop where
  disconnected : caller.client.connected = false
  stands : caller.asking = .idle ∨ ∃ request error, caller.asking = .leaving request error
  answered : ∃ failed, caller.answered =
      (ledger.answered.map fun entry => (entry.1, .ok entry.2)) ++ failed ∧
    ∀ entry ∈ failed, ∃ error, entry.2 = .error error
  begun : ledger.begun <+: caller.asked

theorem InStep.present (h : caller.InStep capacity max ledger held) :
    caller.intake.owner.Present := by
  have hfits := h.fits
  cases hs : caller.asking with
  | idle | writing =>
    rw [hs] at hfits
    have hidle : caller.intake.owner = .idle := hfits
    rw [hidle]
    trivial
  | awaiting =>
    rw [hs] at hfits
    exact Owner.Wants.present hfits
  | leaving =>
    rw [hs] at hfits
    cases hfits

theorem InStep.handle (h : caller.InStep capacity max ledger held) (hb : ledger.Balanced max)
    (hleft : ledger.responsesLeft = []) (entry : Message × Reply) :
    caller.InStep capacity max { ledger with
      handled := ledger.handled ++ [entry]
      responsesLeft := frames (entry.2.within? max).toList } held where
  connected := h.connected
  answered := h.answered
  begun := h.begun
  left := h.left
  fits := h.fits
  expects := by
    have hexpects := h.expects.append (frames (entry.2.within? max).toList)
    rw [hleft, List.append_nil] at hexpects
    rw [Ledger.pendingResponses_handle hb, frames_append]
    exact hexpects

theorem InStep.wrote (h : caller.InStep capacity max ledger held) {left : List UInt8}
    (hleft : ledger.responsesLeft = bytes ++ left) :
    caller.InStep capacity max { ledger with responsesLeft := left } (held ++ bytes) where
  connected := h.connected
  answered := h.answered
  begun := h.begun
  left := h.left
  fits := h.fits
  expects := by
    have hexpects := h.expects
    rw [hleft, ← List.append_assoc] at hexpects
    exact hexpects

theorem hasQuit_abandon
    (ha : caller.answered = ledger.answered.map fun entry => (entry.1, .ok entry.2))
    (hr : ledger.begun <+: ledger.answered.map Prod.fst ++ [request]) (error : TransportError) :
    (caller.abandon request error).HasQuit ledger where
  disconnected := rfl
  stands := .inr ⟨_, _, rfl⟩
  answered := ⟨[], by rw [List.append_nil]; exact ha, nofun⟩
  begun := by
    have hasked : (caller.abandon request error).asked =
        ledger.answered.map Prod.fst ++ [request] := by
      simp [asked, Caller.abandon, Asking.request?, ha]
    rwa [hasked]

theorem exists_conclude (caller : Caller) (request : Message) (report : Report) :
    (∃ response, report = .ok (some response) ∧ caller.conclude request report = { caller with
        asking := .idle, answered := caller.answered ++ [(request, .ok response)] }) ∨
      ∃ error, caller.conclude request report = caller.abandon request error := by
  match report with
  | .ok (some response) => exact .inl ⟨response, rfl, rfl⟩
  | .ok none => exact .inr ⟨_, rfl⟩
  | .error error =>
    refine .inr ?_
    by_cases hd : error.isDisconnect
    · exact ⟨.closed, by simp [conclude, Client.responseOf, hd]⟩
    · exact ⟨error, by simp [conclude, Client.responseOf, hd]⟩

theorem hasQuit_conclude
    (ha : caller.answered = ledger.answered.map fun entry => (entry.1, .ok entry.2))
    (hr : ledger.begun <+: ledger.answered.map Prod.fst ++ [request]) (error : TransportError) :
    (caller.conclude request (.error error)).HasQuit ledger := by
  rcases caller.exists_conclude request (.error error) with ⟨response, hreport, -⟩ | ⟨error', heq⟩
  · cases hreport
  · rw [heq]
    exact hasQuit_abandon ha hr error'

/-- A client that is asked begins the request, or gives the connection up. -/
theorem InStep.ask (h : caller.InStep capacity max ledger held)
    (ha : caller.ask request = some caller') :
    caller'.HasQuit ledger ∨
      ledger.begun = ledger.answered.map Prod.fst ∧ ledger.requestsLeft = [] ∧
        request.encode.length < UInt32.size ∧
        caller'.InStep capacity max { ledger with
          begun := ledger.begun ++ [request], requestsLeft := Frame.encode request.encode }
          held := by
  unfold Caller.ask at ha
  split at ha
  · next hidle =>
    have hbegun := h.begun
    have hleft := h.left
    have hfits := h.fits
    rw [hidle, Asking.request?, Option.toList_none, List.append_nil] at hbegun
    rw [hidle] at hleft hfits
    simp only [h.connected, Bool.not_true, Bool.false_eq_true, if_false, Option.some.injEq] at ha
    by_cases hle : request.encode.length ≤ caller.client.max.toNat
    · rw [Message.frame_of_le hle] at ha
      cases ha
      refine .inr ⟨hbegun, hleft, Nat.lt_of_le_of_lt hle caller.client.max.toNat_lt, ?_⟩
      exact {
        connected := h.connected
        answered := h.answered
        begun := congrArg (· ++ [request]) hbegun
        left := rfl
        fits := hfits
        expects := h.expects }
    · rw [Message.frame_of_lt (Nat.lt_of_not_le hle)] at ha
      cases ha
      exact .inl (hasQuit_conclude h.answered (hbegun ▸ List.prefix_append _ _) _)
  · cases ha

theorem InStep.push {n : Nat} (h : caller.InStep capacity max ledger held)
    (hp : caller.push n = some (caller', bytes)) :
    ∃ left, ledger.requestsLeft = bytes ++ left ∧
      caller'.InStep capacity max { ledger with requestsLeft := left } held := by
  have hbegun := h.begun
  have hleft := h.left
  have hfits := h.fits
  unfold Caller.push at hp
  split at hp
  · next hs =>
    cases hp
    rw [hs] at hbegun hleft hfits
    have hread : caller.intake.step .read =
        some ({ caller.intake with owner := .reading .start }, none) := by
      have hidle : caller.intake.owner = .idle := hfits
      rw [Intake.step, hidle]
    refine ⟨[], hleft, ?_⟩
    exact {
      connected := h.connected
      answered := h.answered
      begun := hbegun
      left := rfl
      fits := trivial
      expects := h.expects.goes h.present hread }
  · next left hne hs =>
    split at hp
    · cases hp
    · cases hp
      rw [hs] at hbegun hleft hfits
      refine ⟨left.drop n, hleft.trans (List.take_append_drop n left).symm, ?_⟩
      exact {
        connected := h.connected
        answered := h.answered
        begun := hbegun
        left := rfl
        fits := hfits
        expects := h.expects }
  · cases hp

theorem InStep.breakOff {failure : Failure} (h : caller.InStep capacity max ledger held)
    (hb : caller.breakOff failure = some caller') : caller'.HasQuit ledger := by
  have hbegun := h.begun
  unfold Caller.breakOff at hb
  split at hb
  · next hs =>
    cases hb
    rw [hs] at hbegun
    exact hasQuit_conclude h.answered (hbegun ▸ List.prefix_refl _) _
  · cases hb

theorem InStep.goes {move : Transport.Move} {intake : Intake}
    (h : caller.InStep capacity max ledger (move.bytes ++ held))
    (hs : caller.intake.step move = some (intake, none))
    (ho : intake.owner = caller.intake.owner) :
    ({ caller with intake } : Caller).InStep capacity max ledger held where
  connected := h.connected
  answered := h.answered
  begun := h.begun
  left := h.left
  fits := ho ▸ h.fits
  expects := Intake.Expects.goes (List.append_assoc .. ▸ h.expects) h.present hs

/-- **A turn of the client** brings the response, or makes it give the connection up; otherwise
it changes nothing. -/
theorem InStep.turn (h : caller.InStep capacity max ledger held) (hb : ledger.Balanced max)
    (ht : caller.turn = some caller') :
    caller'.InStep capacity max ledger held ∨ caller'.HasQuit ledger ∨
      ∃ request response more, ledger.begun = ledger.answered.map Prod.fst ++ [request] ∧
        ledger.pendingResponses max = response :: more ∧
        caller'.InStep capacity max { ledger with
          answered := ledger.answered ++ [(request, response.rewind)] } held := by
  simp only [Caller.turn, Option.bind_eq_bind, Option.bind_eq_some_iff, Option.pure_def,
    Option.some.injEq] at ht
  obtain ⟨⟨intake, report⟩, hturn, rfl⟩ := ht
  have hstep : caller.intake.step .owner = some (intake, report) := hturn
  have hsound := h.expects.sound
  have howner := (Intake.turn_of_ownerTurn hsound.owner hsound.within hturn).owner
  have hfits := h.fits
  obtain ⟨client, asking, conn, answered⟩ := caller
  cases asking with
  | idle | writing =>
    have hidle : conn.owner = .idle := hfits
    simp only [hidle] at howner
    rcases howner with ⟨hwants, -⟩ | ⟨hleaves, -⟩
    · cases hwants
    · cases hleaves
  | leaving => cases hfits
  | awaiting request =>
    rcases howner with ⟨-, ⟨rfl, hwants⟩ | ⟨hsome, hidle⟩⟩ | ⟨hleaves, -⟩
    · exact .inl {
        connected := h.connected
        answered := h.answered
        begun := h.begun
        left := h.left
        fits := hwants
        expects := h.expects.goes h.present hstep }
    · obtain ⟨told, rfl⟩ := Option.ne_none_iff_exists'.mp hsome
      have hanswered : answered = ledger.answered.map fun entry => (entry.1, .ok entry.2) :=
        h.answered
      have hbegun : ledger.begun = ledger.answered.map Prod.fst ++ [request] := h.begun
      refine .inr ?_
      rcases exists_conclude ⟨client, .awaiting request, intake, answered⟩ request told with
        ⟨response, rfl, heq⟩ | ⟨error, heq⟩
      · obtain ⟨first, more, hnext, rfl, hexpects⟩ :=
          h.expects.told (ledger.fits_pendingResponses max) hstep
        refine .inr ⟨request, first, more, hbegun, hnext, ?_⟩
        exact {
          connected := h.connected
          answered := by
            rw [List.map_append, ← hanswered]
            rfl
          begun := by
            rw [List.map_append]
            exact hbegun.trans (List.append_nil _).symm
          left := h.left
          fits := hidle
          expects := by
            rw [Ledger.pendingResponses_answer hb hnext]
            exact hexpects }
      · have hquit : (abandon ⟨client, .awaiting request, intake, answered⟩ request
            error).HasQuit ledger :=
          hasQuit_abandon hanswered (hbegun ▸ List.prefix_refl _) error
        rw [← heq] at hquit
        exact .inl hquit
    · exact absurd hleaves (Owner.Wants.not_leaves hfits)

theorem HasQuit.fails (h : caller.HasQuit ledger) (request : Message)
    (ha : caller.asking.request? = none ∨ caller.asking.request? = some request)
    (error : TransportError) :
    ({ caller with
      asking := .idle, answered := caller.answered ++ [(request, .error error)] } :
      Caller).HasQuit ledger := by
  obtain ⟨failed, hanswered, hfailed⟩ := h.answered
  exact {
    disconnected := h.disconnected
    stands := .inl rfl
    answered := by
      refine ⟨failed ++ [(request, .error error)], ?_, ?_⟩
      · rw [hanswered, List.append_assoc]
      · intro entry hm
        rcases List.mem_append.mp hm with hm | hm
        · exact hfailed entry hm
        · exact ⟨error, by rw [List.mem_singleton.mp hm]⟩
    begun := by
      have hasked : caller.asked <+: caller.answered.map Prod.fst ++ [request] := by
        rcases ha with ha | ha
        · rw [asked, ha, Option.toList_none, List.append_nil]
          exact List.prefix_append _ _
        · rw [asked, ha]
          exact List.prefix_refl _
      have hall : asked { caller with
          asking := .idle, answered := caller.answered ++ [(request, .error error)] } =
          caller.answered.map Prod.fst ++ [request] := by simp [asked, Asking.request?]
      rw [hall]
      exact h.begun.trans hasked }

theorem HasQuit.ask (h : caller.HasQuit ledger) (ha : caller.ask request = some caller') :
    caller'.HasQuit ledger := by
  unfold Caller.ask at ha
  split at ha
  · next hidle =>
    simp only [h.disconnected, Bool.not_false, if_true, Option.some.injEq] at ha
    subst ha
    have hfails := h.fails request (.inl (by rw [hidle]; rfl)) .closed
    rwa [← hidle] at hfails
  · cases ha

theorem HasQuit.push {n : Nat} (h : caller.HasQuit ledger) : caller.push n = none := by
  unfold Caller.push
  rcases h.stands with hs | ⟨request, error, hs⟩
  · rw [hs]
  · rw [hs]

theorem HasQuit.breakOff {failure : Failure} (h : caller.HasQuit ledger) :
    caller.breakOff failure = none := by
  unfold Caller.breakOff
  rcases h.stands with hs | ⟨request, error, hs⟩
  · rw [hs]
  · rw [hs]

theorem HasQuit.goes (h : caller.HasQuit ledger) (intake : Intake) :
    ({ caller with intake } : Caller).HasQuit ledger :=
  ⟨h.disconnected, h.stands, h.answered, h.begun⟩

theorem HasQuit.turn (h : caller.HasQuit ledger) (ht : caller.turn = some caller') :
    caller'.HasQuit ledger := by
  simp only [Caller.turn, Option.bind_eq_bind, Option.bind_eq_some_iff, Option.pure_def,
    Option.some.injEq] at ht
  obtain ⟨⟨intake, report⟩, -, rfl⟩ := ht
  have hgoes := h.goes intake
  split
  · next hs _ =>
    rcases h.stands with hidle | ⟨request, error, hleaving⟩
    · cases hs.symm.trans hidle
    · cases hs.symm.trans hleaving
  · next hs _ => exact hgoes.fails _ (.inr (by rw [hs]; rfl)) _
  · exact hgoes

end Caller

end Parley
