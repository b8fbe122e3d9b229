import Parley.Exchange
import Parley.Proofs.Server.Trace
import Parley.Proofs.Transport.Messages

/-!
# What a send comes to

A client sends a request over a connection with nothing on its way. The worker makes of it what it
makes of its frame (`Handler.judge`): it sends a response, or it ends its service. Then the client
makes of the response what it makes of its frame, and of the end that the connection is closed.

**The cases.** A request above the client's limit is not written (`Exchange.fails_of_lt`). Of any
other the worker makes a response, which is told in one way or another
(`Exchange.comes_of_response`), or nothing (`Exchange.fails_of_end`). After a response nothing is
on its way again, and after anything else the connection is lost.
-/

namespace Parley

variable {σ : Type} {max serverMax : UInt32} {handler : Handler σ} {request response : Message}
  {state next : σ} {report : Report}

theorem Client.isOk_disconnect (client : Client) :
    (client.disconnect (.ok ())).1.isOk = true := by
  rw [disconnect]
  split
  · rfl
  · rfl

theorem Client.eq_of_responseOf (h : responseOf report = .ok response) :
    report = .ok (some response) := by
  match report with
  | .ok none => cases h
  | .ok (some message) =>
    cases h
    rfl
  | .error error =>
    rw [responseOf] at h
    split at h <;> cases h

/-! ## The worker -/

/-- What a worker makes of a report: the response that it sends, unless it ends its service, and
what the handler keeps then. -/
def Handler.judge (handler : Handler σ) (max : UInt32) (state : σ) : Report → Option Message × σ
  | .ok (some request) =>
    let (reply, next) := handler state request
    (reply.within? max, next)
  | .ok none | .error _ => (none, state)

theorem Handler.of_judge (h : handler.judge max state report = (some response, next)) :
    (∃ request, report = .ok (some request)) ∧ response.encode.length ≤ max.toNat := by
  match report with
  | .ok none | .error _ => cases h
  | .ok (some request) =>
    obtain ⟨hwithin, -⟩ := Prod.mk.inj h
    exact ⟨⟨request, rfl⟩, (Reply.eq_of_within? hwithin).2⟩

namespace Worker

variable {worker : Worker σ}

theorem take_of_response (h : worker.handler.judge worker.intake.max worker.state report =
    (some response, next)) : ∃ handled, worker.take report = { worker with
      state := next, handled, serving := .writing (Frame.encode response.encode) } := by
  match report with
  | .ok none | .error _ => cases h
  | .ok (some request) =>
    obtain ⟨reply, kept, hreply, hhandle⟩ := worker.exists_handle request
    simp only [Handler.judge, hreply, Prod.mk.injEq] at h
    obtain ⟨hwithin, rfl⟩ := h
    rcases hhandle with ⟨sent, hsent, heq⟩ | ⟨hnone, -⟩
    · obtain rfl : sent = response := Option.some.inj (hsent.symm.trans hwithin)
      exact ⟨_, heq⟩
    · cases hnone.symm.trans hwithin

theorem take_of_end (h : worker.handler.judge worker.intake.max worker.state report =
    (none, next)) : ∃ handled status, worker.take report =
      ({ worker with state := next, handled } : Worker σ).quit status := by
  match report with
  | .ok none | .error _ =>
    obtain rfl : worker.state = next := congrArg Prod.snd h
    exact ⟨worker.handled, _, rfl⟩
  | .ok (some request) =>
    obtain ⟨reply, kept, hreply, hhandle⟩ := worker.exists_handle request
    simp only [Handler.judge, hreply, Prod.mk.injEq] at h
    obtain ⟨hwithin, rfl⟩ := h
    rcases hhandle with ⟨sent, hsent, -⟩ | ⟨-, status, heq⟩
    · cases hsent.symm.trans hwithin
    · exact ⟨_, status, heq⟩

end Worker

section Serve

variable {receiver : Receiver}

theorem serve_nothing (handler : Handler σ) (state : σ) (max : UInt32) :
    serve handler state { max } = { state, receiver := { max }, status := .waiting } :=
  serve_of_waiting rfl

theorem serve_of_response (hread : receiver.read = (some report, { max }))
    (hj : handler.judge max state report = (some response, next)) :
    ∃ handled, serve handler state receiver = {
      sent := Frame.encode response.encode
      handled
      state := next
      receiver := { max }
      status := .waiting } := by
  match report with
  | .ok none | .error _ => cases hj
  | .ok (some request) =>
    cases hreply : handler state request with
    | mk reply kept =>
      simp only [Handler.judge, hreply, Prod.mk.injEq] at hj
      obtain ⟨hwithin, rfl⟩ := hj
      obtain ⟨rfl, hle⟩ := Reply.eq_of_within? hwithin
      rw [serve_of_request hread, hreply]
      simp only [Message.frame_of_le hle, serve_nothing, Service.precede, List.append_nil]
      exact ⟨_, rfl⟩

theorem serve_of_judge_none {rest : Receiver} (hread : receiver.read = (some report, rest))
    (hj : handler.judge rest.max state report = (none, next)) :
    let service := serve handler state receiver
    service.sent = [] ∧ service.state = next ∧ service.status ≠ .waiting := by
  match report with
  | .ok none =>
    rw [serve_of_end hread]
    exact ⟨rfl, congrArg Prod.snd hj, nofun⟩
  | .error error =>
    rw [serve_of_error hread]
    exact ⟨rfl, congrArg Prod.snd hj, nofun⟩
  | .ok (some request) =>
    cases hreply : handler state request with
    | mk reply kept =>
      simp only [Handler.judge, hreply, Prod.mk.injEq] at hj
      obtain ⟨hwithin, rfl⟩ := hj
      rw [serve_of_request hread, hreply]
      cases reply with
      | refusal text => exact ⟨rfl, rfl, nofun⟩
      | crash => exact ⟨rfl, rfl, nofun⟩
      | response response =>
        have hlarge : rest.max.toNat < response.encode.length := by
          simpa [Reply.within?] using hwithin
        simp [Message.frame_of_lt hlarge]

end Serve

/-! ## One frame -/

/-- A stream of one frame is told in one way, whether it goes on or not, and nothing of it is left
if it is a message. -/
theorem Receiver.exists_read_encode (max : UInt32) {body : List UInt8}
    (hsize : body.length < UInt32.size) :
    ∃ report left, (∀ ending,
        ({ max, pending := Frame.encode body, ending } : Receiver).read =
          (some report, { max, pending := left, ending })) ∧
      ∀ message, report = .ok message → left = [] := by
  by_cases hle : body.length ≤ max.toNat
  · have hcut : Frame.Cut max (Frame.encode body) (.body body) [] := by
      simpa using Frame.Cut.frame hle []
    exact ⟨_, [], read_of_cut hcut Frame.Outcome.not_isEnd_body, fun _ _ => rfl⟩
  · have hcut := Frame.Cut.tooLarge hsize (Nat.lt_of_not_le hle) body
    exact ⟨_, body, read_of_cut hcut Frame.Outcome.not_isEnd_tooLarge, nofun⟩

theorem Receiver.read_frame (hdecode : Message.decode request.encode = .ok request)
    (hfits : request.encode.length ≤ max.toNat) :
    ({ max, pending := Frame.encode request.encode } : Receiver).read =
      (some (.ok (some request)), { max }) := by
  have hcut := read_of_cut (.frame hfits []) Frame.Outcome.not_isEnd_body none
  rw [List.append_nil] at hcut
  rw [hcut, Report.ofOutcome, Report.ofBody, hdecode]
  rfl

/-! ## The exchange -/

namespace Exchange

/-- A client and a worker with nothing on its way between them. -/
def ready (max serverMax : UInt32) (state : σ) : Exchange σ where
  client := { max }
  connection := { requests := { max := serverMax }, responses := { max } }
  state

theorem start_eq_ready {config serverConfig : Config} (h : Transport.setUp serverConfig = .ok ())
    (state : σ) : start config serverConfig state =
      ready config.maxFrameSize serverConfig.maxFrameSize state := by
  simp only [start, Server.Connection.accept, h]
  rfl

theorem work_of_serve {connection : Server.Connection} {service : Service σ}
    (hactive : connection.status = .waiting)
    (hserve : serve handler state connection.requests = service) :
    connection.work handler state =
      ({ requests := service.receiver
         responses := if service.status = .waiting then connection.responses.deliver service.sent
           else (connection.responses.deliver service.sent).stop .ended
         status := service.status }, service.state) := by
  have hactive : connection.isActive = true := decide_eq_true hactive
  rw [Server.Connection.work, if_pos hactive, hserve]

theorem work_of_over {connection : Server.Connection} (hover : connection.status ≠ .waiting)
    (state : σ) : connection.work handler state = (connection, state) :=
  if_neg (by simpa [Server.Connection.isActive] using hover)

theorem work_stop {connection : Server.Connection} (hnone : connection.requests = { max }) :
    ((connection.stop .ended).work handler state).2 = state := by
  by_cases hactive : (connection.stop .ended).status = .waiting
  · have hstop : (connection.stop .ended).requests = { max, ending := some .ended } := by
      rw [Server.Connection.stop, hnone]
      rfl
    have hended : serve handler state { max, ending := some .ended } =
        { state, receiver := { max, ending := some .ended }, status := .closed } :=
      serve_of_end rfl
    rw [← hstop] at hended
    rw [work_of_serve hactive hended]
  · rw [work_of_over hactive]

/-- What a send comes to by what the worker makes of what it is sent, what this brings the client,
and what the client makes of that. -/
theorem send_eq {exchange : Exchange σ} (hconnected : exchange.client.connected = true)
    {connection : Server.Connection} {read : Option Report} {responses : Receiver}
    {result : Except TransportError Message} {client : Client}
    (hwork : (exchange.write request).work handler exchange.state = (connection, state))
    (hread : connection.responses.read = (read, responses))
    (hclient : exchange.client.send request (fun _ => .ok ()) (read.getD (.ok none)) =
      (result, client)) :
    exchange.send handler request =
      let connection := { connection with responses }
      if client.connected then (result, { client, connection, state })
      else
        let (connection, state) := (connection.stop .ended).work handler state
        (result, { client, connection, state }) := by
  simp only [send, hconnected, if_true]
  rw [hwork]
  simp only [hread, hclient]

/-- The send fails with this error, and the connection is lost. -/
def Fails (handler : Handler σ) (exchange : Exchange σ) (request : Message)
    (error : TransportError) (state : σ) : Prop :=
  ∃ next, exchange.send handler request = (.error error, next) ∧
    next.client.connected = false ∧ next.state = state

/-- The send comes to what a client makes of this report. A response leaves this exchange, and an
error what the handler keeps in it. -/
def Comes (handler : Handler σ) (exchange : Exchange σ) (request : Message) (report : Report)
    (next : Exchange σ) : Prop :=
  match Client.responseOf report with
  | .ok response => exchange.send handler request = (.ok response, next)
  | .error error => exchange.Fails handler request error next.state

/-- A client that gives its connection up ends the service of the worker. -/
theorem fails_of_lost {exchange : Exchange σ} (hconnected : exchange.client.connected = true)
    {connection : Server.Connection} {read : Option Report} {responses : Receiver}
    {error : TransportError} {client : Client}
    (hwork : (exchange.write request).work handler exchange.state = (connection, state))
    (hread : connection.responses.read = (read, responses))
    (hclient : exchange.client.send request (fun _ => .ok ()) (read.getD (.ok none)) =
      (.error error, client)) (hlost : client.connected = false)
    (hstop : ((Server.Connection.stop { connection with responses } .ended).work handler
      state).2 = state) :
    exchange.Fails handler request error state := by
  rw [Fails, send_eq hconnected hwork hread hclient]
  exact ⟨_, if_neg (by rw [hlost]; decide), hlost, hstop⟩

theorem write_of_fits (hfits : request.encode.length ≤ max.toNat) (state : σ) :
    (ready max serverMax state).write request = {
      requests := { max := serverMax, pending := Frame.encode request.encode }
      responses := { max } } := by
  have hframe : request.frame max = .ok (Frame.encode request.encode) := Message.frame_of_le hfits
  simp only [write, ready, hframe]
  rfl

theorem client_send_of_fits (hfits : request.encode.length ≤ max.toNat) (report : Report) :
    ({ max } : Client).send request (fun _ => .ok ()) report =
      match Client.responseOf report with
      | .ok response => (.ok response, { max })
      | .error error => (.error error, { max, connected := false }) := by
  simp only [Client.send, Message.frame_of_le hfits]
  rfl

/-- **A request above the client's limit is not written**, and ends the connection. -/
theorem fails_of_lt (hlarge : max.toNat < request.encode.length) (state : σ) :
    (ready max serverMax state).Fails handler request
      (.frame (.tooLarge request.encode.length max)) state := by
  have hframe := Message.frame_of_lt hlarge
  have hwrite : (ready max serverMax state).write request =
      { requests := { max := serverMax }, responses := { max } } := by
    simp only [write, ready, hframe]
  have hwork : ((ready max serverMax state).write request).work handler state =
      ({ requests := { max := serverMax }, responses := { max } }, state) := by
    rw [hwrite, work_of_serve rfl (serve_nothing handler state serverMax)]
    rfl
  have hclient : ({ max } : Client).send request (fun _ => .ok ()) (.ok none) =
      (.error (.frame (.tooLarge request.encode.length max)), { max, connected := false }) := by
    simp only [Client.send, hframe]
    rfl
  exact fails_of_lost rfl hwork rfl hclient rfl (work_stop rfl)

/-- **The client makes of a response what it makes of its frame.** -/
theorem comes_of_response (hfits : request.encode.length ≤ max.toNat)
    (hread : ({ max := serverMax, pending := Frame.encode request.encode } : Receiver).read =
      (some report, { max := serverMax }))
    (hj : handler.judge serverMax state report = (some response, next)) {told : Report}
    {left : List UInt8}
    (htold : ({ max, pending := Frame.encode response.encode } : Receiver).read =
      (some told, { max, pending := left }))
    (hleft : ∀ message, told = .ok message → left = []) :
    (ready max serverMax state).Comes handler request told (ready max serverMax next) := by
  obtain ⟨handled, hserve⟩ := serve_of_response hread hj
  have hwork : ((ready max serverMax state).write request).work handler state =
      ({ requests := { max := serverMax }
         responses := { max, pending := Frame.encode response.encode } }, next) := by
    rw [write_of_fits hfits, work_of_serve rfl hserve]
    rfl
  have hclient := client_send_of_fits hfits told
  rw [Comes]
  cases hresult : Client.responseOf told with
  | ok message =>
    obtain rfl : left = [] := hleft _ (Client.eq_of_responseOf hresult)
    rw [hresult] at hclient
    show (ready max serverMax state).send handler request = _
    rw [send_eq rfl hwork htold hclient]
    rfl
  | error error =>
    rw [hresult] at hclient
    exact fails_of_lost rfl hwork htold hclient rfl (work_stop rfl)

/-- **Where the worker ends its service the client finds the connection closed.** -/
theorem fails_of_end (hfits : request.encode.length ≤ max.toNat) {rest : Receiver}
    (hread : ({ max := serverMax, pending := Frame.encode request.encode } : Receiver).read =
      (some report, rest))
    (hj : handler.judge rest.max state report = (none, next)) :
    (ready max serverMax state).Fails handler request .closed next := by
  obtain ⟨hsent, hstate, hstatus⟩ := serve_of_judge_none hread hj
  generalize hservice : serve handler state
    { max := serverMax, pending := Frame.encode request.encode } = service at hsent hstate hstatus
  have hwork : ((ready max serverMax state).write request).work handler state =
      ({ requests := service.receiver
         responses := { max, ending := some .ended }
         status := service.status }, next) := by
    rw [write_of_fits hfits, work_of_serve rfl hservice, if_neg hstatus, hsent, hstate]
    rfl
  refine fails_of_lost rfl hwork rfl (client_send_of_fits hfits (.ok none)) rfl ?_
  rw [work_of_over]
  exact hstatus

end Exchange

end Parley
