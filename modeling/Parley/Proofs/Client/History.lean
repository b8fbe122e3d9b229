import Mathlib.Data.List.Induction
import Parley.Client.Session

/-!
# What a client has returned

The calls of a client, one after the other, return answers and handles as long as it is connected,
then the one loss of its connection, and from then on only refusals. `History` lists such
sequences.

**Sends** (`Client.returns_responseOf`). A send that used the connection came to a report, and
nothing that reading or writing comes to says that there is no connection. So a send returns that
the connection is closed just if the report means that it was torn down (`Report.TornDown`), and
returns any other error as it is.

**Theorems (`History.connected_iff`, `History.sent`, `History.refused`).** The client is connected
as long as nothing has lost it its connection. A send before the loss returns what it came to. After
the loss there are only refusals.
-/

namespace Parley

/-! ## What a send returns -/

/-- What comes of a torn-down connection: its clean end, or a failed read or write of a kind that
means it. -/
inductive Report.TornDown : Report → Prop
  | ended : TornDown (.ok none)
  | read {failure : Failure} (h : failure.kind.isDisconnect = true) :
    TornDown (.error (.failed failure))
  | write {failure : Failure} (h : failure.kind.isDisconnect = true) :
    TornDown (.error (.frame (.failed failure)))

/-- What a send returns that came to this report. -/
structure Report.Returns (report : Report) (result : Except TransportError Message) : Prop where
  answered : ∀ response, result = .ok response ↔ report = .ok (some response)
  closed : result = .error .closed ↔ report.TornDown
  unchanged : ∀ error, error ≠ .closed → (result = .error error ↔
    report = .error error ∧ ¬report.TornDown)

namespace Client

variable {report : Report}

theorem responseOf_of_tornDown (h : report.TornDown) : responseOf report = .error .closed := by
  cases h with
  | ended => rfl
  | read h | write h => exact if_pos h

theorem responseOf_of_not_tornDown (h : ¬report.TornDown) :
    (∃ response, report = .ok (some response) ∧ responseOf report = .ok response) ∨
      ∃ error, report = .error error ∧ responseOf report = .error error := by
  match report with
  | .ok (some response) => exact .inl ⟨response, rfl, rfl⟩
  | .ok none => exact absurd .ended h
  | .error error =>
    refine .inr ⟨error, rfl, ?_⟩
    match error with
    | .failed failure => exact if_neg fun hk => h (.read hk)
    | .frame (.failed failure) => exact if_neg fun hk => h (.write hk)
    | .frame (.truncated ..) | .frame (.tooLarge ..) | .malformed _ | .config _ | .handler _
    | .closed => rfl

/-- **A send returns this**, since nothing else says that there is no connection. -/
theorem returns_responseOf (hne : report ≠ .error .closed) :
    report.Returns (responseOf report) := by
  by_cases h : report.TornDown
  · rw [responseOf_of_tornDown h]
    refine ⟨fun response => iff_of_false nofun fun heq => ?_, iff_of_true rfl h, ?_⟩
    · rw [heq] at h
      cases h
    · intro error herror
      exact iff_of_false (fun heq => herror (Except.error.inj heq).symm) fun hw => hw.2 h
  · rcases responseOf_of_not_tornDown h with ⟨response, rfl, hresult⟩ | ⟨error, rfl, hresult⟩
    · rw [hresult]
      refine ⟨fun other => ?_, iff_of_false nofun h, fun error _ => iff_of_false nofun nofun⟩
      rw [Except.ok.injEq, Except.ok.injEq, Option.some.injEq]
    · rw [hresult]
      refine ⟨fun response => iff_of_false nofun nofun, iff_of_false ?_ h, fun other _ => ?_⟩
      · exact fun heq => hne (congrArg Except.error (Except.error.inj heq))
      · rw [Except.error.injEq, Except.error.injEq]
        exact (and_iff_left h).symm

end Client

/-! ## Histories -/

/-- What the call returns when there is no connection. -/
def Call.refusal : Call → Event
  | send request => .sent request none (.error .closed)
  | disconnect _ => .disconnected (.ok ())
  | closer _ => .closer (.error .closed)

/-- The connection is lost with this: with a send that fails, and with every disconnect. -/
def Event.Severs : Event → Prop
  | sent _ _ (.error _) | disconnected _ => True
  | sent _ _ (.ok _) | closer _ => False

/-- What the calls of a client have returned, and whether it is connected after them. -/
inductive History : (connected : Bool) → List Event → Prop
  | start : History true []
  | answers {log : List Event} {request response : Message} {report : Report}
      (h : History true log) (hr : Client.responseOf report = .ok response) :
    History true (log ++ [.sent request (some report) (.ok response)])
  | hands {log : List Event} (h : History true log) (result : Except TransportError Unit) :
    History true (log ++ [.closer result])
  | fails {log : List Event} {request : Message} {report : Report} {error : TransportError}
      (h : History true log) (hne : report ≠ .error .closed)
      (hr : Client.responseOf report = .error error) :
    History false (log ++ [.sent request (some report) (.error error)])
  | disconnects {log : List Event} (h : History true log) (result : Except TransportError Unit) :
    History false (log ++ [.disconnected result])
  | refuses {log : List Event} (h : History false log) (call : Call) :
    History false (log ++ [call.refusal])

namespace History

variable {connected : Bool} {log before after : List Event} {event later : Event}

/-- **A client is connected as long as nothing has lost it its connection.** -/
theorem connected_iff (h : History connected log) :
    connected = true ↔ ∀ event ∈ log, ¬event.Severs := by
  induction h with
  | start => exact iff_of_true rfl fun event hm => absurd hm List.not_mem_nil
  | answers _ _ ih | hands _ _ ih =>
    refine iff_of_true rfl fun event hm => ?_
    rcases List.mem_append.mp hm with hm | hm
    · exact ih.mp rfl event hm
    · rw [List.mem_singleton.mp hm]
      exact id
  | fails | disconnects =>
    refine iff_of_false Bool.false_ne_true fun hnone => ?_
    exact hnone _ (List.mem_append_right _ List.mem_cons_self) trivial
  | refuses _ call ih =>
    refine iff_of_false Bool.false_ne_true fun hnone => Bool.false_ne_true ?_
    exact ih.mpr fun event hm => hnone event (List.mem_append_left _ hm)

theorem of_concat (h : History connected (log ++ [event])) :
    ∃ was, History was log ∧ (was = true ∨ ∃ call : Call, event = call.refusal) := by
  generalize hlog : log ++ [event] = full at h
  cases h with
  | start => simp at hlog
  | answers h | hands h | fails h | disconnects h =>
    obtain ⟨rfl, -⟩ := List.append_inj' hlog rfl
    exact ⟨true, h, .inl rfl⟩
  | refuses h call =>
    obtain ⟨rfl, heq⟩ := List.append_inj' hlog rfl
    exact ⟨false, h, .inr ⟨call, List.singleton_inj.mp heq⟩⟩

/-- A history begins with histories. The induction is on what comes after, from its end. -/
theorem of_append (h : History connected (before ++ after)) : ∃ was, History was before := by
  induction after using List.reverseRecOn generalizing connected with
  | nil =>
    rw [List.append_nil] at h
    exact ⟨connected, h⟩
  | append_singleton more last ih =>
    rw [← List.append_assoc] at h
    obtain ⟨was, hwas, -⟩ := h.of_concat
    exact ih hwas

theorem up_to (h : History connected (before ++ event :: after)) :
    ∃ was, History was (before ++ [event]) := by
  rw [List.append_cons] at h
  exact h.of_append

/-- **After the loss there are only refusals.** -/
theorem refused (h : History connected (before ++ event :: after)) (hs : event.Severs)
    (hm : later ∈ after) : ∃ call : Call, later = call.refusal := by
  obtain ⟨between, more, rfl⟩ := List.append_of_mem hm
  rw [← List.cons_append, ← List.append_assoc] at h
  obtain ⟨_, hupto⟩ := h.up_to
  obtain ⟨was, hwas, hlater⟩ := hupto.of_concat
  rcases hlater with rfl | hrefusal
  · exact absurd hs (hwas.connected_iff.mp rfl event (by simp))
  · exact hrefusal

/-- **A send before the loss** returns what it came to. -/
theorem sent {request : Message} {came : Option Report}
    {result : Except TransportError Message}
    (h : History connected (before ++ .sent request came result :: after))
    (hb : ∀ event ∈ before, ¬event.Severs) :
    ∃ report, came = some report ∧ report.Returns result := by
  obtain ⟨was, hupto⟩ := h.up_to
  generalize hlog : before ++ [Event.sent request came result] = log at hupto
  cases hupto with
  | start => simp at hlog
  | answers hwas hr =>
    obtain ⟨-, heq⟩ := List.append_inj' hlog rfl
    cases heq
    refine ⟨_, rfl, hr ▸ Client.returns_responseOf fun heq => ?_⟩
    rw [heq] at hr
    cases hr
  | fails hwas hne hr =>
    obtain ⟨-, heq⟩ := List.append_inj' hlog rfl
    cases heq
    exact ⟨_, rfl, hr ▸ Client.returns_responseOf hne⟩
  | hands | disconnects =>
    obtain ⟨-, heq⟩ := List.append_inj' hlog rfl
    cases heq
  | refuses hwas call =>
    obtain ⟨rfl, -⟩ := List.append_inj' hlog rfl
    cases hwas.connected_iff.mpr hb

/-- **Every send** returns what it came to, or that there is no connection. -/
theorem returns (h : History connected log) {request : Message} {came : Option Report}
    {result : Except TransportError Message} (hm : .sent request came result ∈ log) :
    (came = none ∧ result = .error .closed) ∨
      ∃ report, came = some report ∧ report.Returns result := by
  obtain ⟨before, after, rfl⟩ := List.append_of_mem hm
  by_cases hb : ∃ event ∈ before, event.Severs
  · obtain ⟨event, hevent, hs⟩ := hb
    obtain ⟨first, between, rfl⟩ := List.append_of_mem hevent
    rw [List.append_assoc, List.cons_append] at h
    obtain ⟨call, hcall⟩ := h.refused hs (List.mem_append_right _ List.mem_cons_self)
    cases call with
    | send =>
      cases hcall
      exact .inl ⟨rfl, rfl⟩
    | disconnect | closer => cases hcall
  · exact .inr (h.sent fun event hevent hs => hb ⟨event, hevent, hs⟩)

theorem not_tornDown (h : History connected log) {request : Message} {came : Option Report}
    {error : TransportError} (hm : .sent request came (.error error) ∈ log)
    (hne : error ≠ .closed) : ¬Report.TornDown (.error error) := by
  rcases h.returns hm with ⟨-, hresult⟩ | ⟨report, -, hreturns⟩
  · cases hresult
    exact absurd rfl hne
  · obtain ⟨hreport, htorn⟩ := (hreturns.unchanged error hne).mp rfl
    rwa [hreport] at htorn

end History

end Parley
