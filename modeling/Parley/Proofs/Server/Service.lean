import Parley.Proofs.Transport.Receiver
import Parley.Server.Service

/-!
# What a service comes to

A stream reads as a transcript. Its service answers the requests of the transcript one after
the other, up to the first thing that goes wrong: a report that is an error, a reply that is
none, or a response over the limit. The responses up to there are all that is sent. Behind the
last report the service waits if the stream is open, and is closed if it has ended.

**Theorem (`serve_eq`).** Serving all that has been received does just this.
-/

namespace Parley

open Parley.Frame (Outcome Cut)

variable {σ : Type}

/-- The service of a connection that reads as these reports, and whose stream stops or stays
open: the bytes sent, the requests handed to the handler with its replies, and what the service
comes to. -/
inductive Serves (handler : Handler σ) (max : UInt32) (stops : Bool) :
    σ → List Report → List UInt8 → List (Message × Reply) → ServiceStatus → Prop
  | waiting (state : σ) (h : stops = false) : Serves handler max stops state [] [] [] .waiting
  | closed (state : σ) (h : stops = true) : Serves handler max stops state [] [] [] .closed
  | dropped (state : σ) (error : TransportError) (more : List Report) :
    Serves handler max stops state (.error error :: more) [] [] (.dropped error)
  | refused {state next : σ} {request : Message} {text : String} (more : List Report)
      (hh : handler state request = (.refusal text, next)) :
    Serves handler max stops state (.ok (some request) :: more) [] [(request, .refusal text)]
      (.dropped (.handler text))
  | crashed {state next : σ} {request : Message} (more : List Report)
      (hh : handler state request = (.crash, next)) :
    Serves handler max stops state (.ok (some request) :: more) [] [(request, .crash)] .crashed
  | tooLarge {state next : σ} {request response : Message} (more : List Report)
      (hh : handler state request = (.response response, next))
      (hlarge : max.toNat < response.encode.length) :
    Serves handler max stops state (.ok (some request) :: more) [] [(request, .response response)]
      (.dropped (.frame (.tooLarge response.encode.length max)))
  | answered {state next : σ} {request response : Message} {more : List Report}
      {sent : List UInt8} {handled : List (Message × Reply)} {status : ServiceStatus}
      (hh : handler state request = (.response response, next))
      (hfits : response.encode.length ≤ max.toNat)
      (hmore : Serves handler max stops next more sent handled status) :
    Serves handler max stops state (.ok (some request) :: more)
      (Frame.encode response.encode ++ sent) ((request, .response response) :: handled) status

/-- The frames of all responses. -/
def responses (handled : List (Message × Reply)) : List UInt8 :=
  handled.flatMap fun
    | (_, .response response) => Frame.encode response.encode
    | _ => []

theorem responses_concat (handled : List (Message × Reply)) (request response : Message) :
    responses (handled ++ [(request, .response response)]) =
      responses handled ++ Frame.encode response.encode := by
  simp [responses]

theorem Message.frame_of_le {max : UInt32} {message : Message}
    (h : message.encode.length ≤ max.toNat) :
    message.frame max = .ok (Frame.encode message.encode) := by
  rw [frame, Frame.make_of_le h]
  rfl

theorem Message.frame_of_lt {max : UInt32} {message : Message}
    (h : max.toNat < message.encode.length) :
    message.frame max = .error (.frame (.tooLarge message.encode.length max)) := by
  rw [frame, Frame.make_of_lt h]
  rfl

/-- A transcript has a report for each piece of its stream, and none for the clean end. -/
theorem Transcript.not_mem_end {max : UInt32} {ending : Option Ending} {stream : List UInt8}
    {reports : List Report} (h : Transcript max ending stream reports) :
    (.ok none : Report) ∉ reports := by
  have hbody : ∀ body, Report.ofBody body ≠ .ok none := by
    intro body
    rw [Report.ofBody]
    cases Message.decode body with
    | error error => intro heq; cases heq
    | ok message => intro heq; cases heq
  have hbroken : ∀ (stopped : Ending) error, (.ok none : Report) ∉ [stopped.report error] := by
    intro stopped error
    cases stopped <;> simp [Ending.report]
  induction h with
  | waiting | ended | failed => simp
  | shortHeader | shortBody => exact hbroken _ _
  | tooLarge _ _ _ ih => simpa using ih
  | @frame body _ _ _ _ ih =>
    rw [List.mem_cons, not_or]
    exact ⟨(hbody body).symm, ih⟩

theorem exists_serves (handler : Handler σ) (max : UInt32) (stops : Bool) (state : σ)
    {reports : List Report} (h : (.ok none : Report) ∉ reports) :
    ∃ sent handled status, Serves handler max stops state reports sent handled status := by
  induction reports generalizing state with
  | nil =>
    cases hstops : stops with
    | true => exact ⟨_, _, _, .closed state rfl⟩
    | false => exact ⟨_, _, _, .waiting state rfl⟩
  | cons report more ih =>
    rw [List.mem_cons, not_or] at h
    match report, h with
    | .error error, _ => exact ⟨_, _, _, .dropped state error more⟩
    | .ok none, h => exact absurd rfl h.1
    | .ok (some request), h =>
      match hh : handler state request with
      | (.refusal text, next) => exact ⟨_, _, _, .refused more hh⟩
      | (.crash, next) => exact ⟨_, _, _, .crashed more hh⟩
      | (.response response, next) =>
        by_cases hfits : response.encode.length ≤ max.toNat
        · obtain ⟨sent, handled, status, hmore⟩ := ih next h.2
          exact ⟨_, _, _, .answered hh hfits hmore⟩
        · exact ⟨_, _, _, .tooLarge more hh (Nat.lt_of_not_le hfits)⟩

section Serve

variable {handler : Handler σ} {state : σ} {receiver rest : Receiver}

theorem serve_of_waiting (h : receiver.read = (none, rest)) :
    serve handler state receiver = { state, receiver := rest, status := .waiting } := by
  rw [serve]
  split
  · next heq => cases h.symm.trans heq; rfl
  · next heq => cases h.symm.trans heq
  · next heq => cases h.symm.trans heq
  · next heq => cases h.symm.trans heq

theorem serve_of_error {error : TransportError}
    (h : receiver.read = (some (.error error), rest)) :
    serve handler state receiver = { state, receiver := rest, status := .dropped error } := by
  rw [serve]
  split
  · next heq => cases h.symm.trans heq
  · next heq => cases h.symm.trans heq; rfl
  · next heq => cases h.symm.trans heq
  · next heq => cases h.symm.trans heq

theorem serve_of_end (h : receiver.read = (some (.ok none), rest)) :
    serve handler state receiver = { state, receiver := rest, status := .closed } := by
  rw [serve]
  split
  · next heq => cases h.symm.trans heq
  · next heq => cases h.symm.trans heq
  · next heq => cases h.symm.trans heq; rfl
  · next heq => cases h.symm.trans heq

theorem serve_of_request {request : Message}
    (h : receiver.read = (some (.ok (some request)), rest)) :
    serve handler state receiver =
      let (reply, state) := handler state request
      let stopped (status : ServiceStatus) : Service σ :=
        { handled := [(request, reply)], state, receiver := rest, status }
      match reply with
      | .refusal text => stopped (.dropped (.handler text))
      | .crash => stopped .crashed
      | .response response =>
        match response.frame rest.max with
        | .error error => stopped (.dropped error)
        | .ok frame => (serve handler state rest).precede request response frame := by
  rw [serve]
  split
  · next heq => cases h.symm.trans heq
  · next heq => cases h.symm.trans heq
  · next heq => cases h.symm.trans heq
  · next heq => cases h.symm.trans heq; rfl

/-- The parts of a service that are settled by what it reads. -/
def Service.Comes (service : Service σ) (sent : List UInt8) (handled : List (Message × Reply))
    (status : ServiceStatus) : Prop :=
  service.sent = sent ∧ service.handled = handled ∧ service.status = status

theorem serve_of_read {max : UInt32} {stops : Bool} {report : Report} {more : List Report}
    {sent : List UInt8} {handled : List (Message × Reply)} {status : ServiceStatus}
    (h : receiver.read = (some report, rest)) (hmax : rest.max = max)
    (hs : Serves handler max stops state (report :: more) sent handled status)
    (hmore : ∀ {next sent handled status},
      Serves handler max stops next more sent handled status →
      (serve handler next rest).Comes sent handled status) :
    (serve handler state receiver).Comes sent handled status := by
  subst hmax
  cases hs with
  | dropped =>
    rw [serve_of_error h]
    exact ⟨rfl, rfl, rfl⟩
  | refused _ hh =>
    rw [serve_of_request h, hh]
    exact ⟨rfl, rfl, rfl⟩
  | crashed _ hh =>
    rw [serve_of_request h, hh]
    exact ⟨rfl, rfl, rfl⟩
  | tooLarge _ hh hlarge =>
    rw [serve_of_request h, hh]
    simp only [Message.frame_of_lt hlarge]
    exact ⟨rfl, rfl, rfl⟩
  | answered hh hfits hserves =>
    rw [serve_of_request h, hh]
    simp only [Message.frame_of_le hfits]
    obtain ⟨hsent, hhandled, hstatus⟩ := hmore hserves
    exact ⟨congrArg (_ ++ ·) hsent, congrArg (_ :: ·) hhandled, hstatus⟩

/-- A stream that breaks off in its first piece is dropped. -/
theorem serve_of_isEnd {max : UInt32} {stopped : Ending} {got : List UInt8} {error : FrameError}
    (hcut : Cut max got (.error error) []) (hend : (Outcome.error error).IsEnd)
    {sent : List UInt8} {handled : List (Message × Reply)} {status : ServiceStatus}
    (hs : Serves handler max true state [stopped.report error] sent handled status) :
    (serve handler state { max, pending := got, ending := some stopped }).Comes sent handled
      status := by
  have hread := Receiver.read_of_cut_end hcut hend (some stopped)
  cases stopped with
  | ended | failed =>
    cases hs
    rw [serve_of_error hread]
    exact ⟨rfl, rfl, rfl⟩

end Serve

/-- **Serving all that was received** sends the responses, hands the requests over and comes to
what its transcript says. -/
theorem serve_eq {handler : Handler σ} {max : UInt32} {ending : Option Ending} {state : σ}
    {stream sent : List UInt8} {reports : List Report} {handled : List (Message × Reply)}
    {status : ServiceStatus} (ht : Transcript max ending stream reports)
    (hs : Serves handler max ending.isSome state reports sent handled status) :
    (serve handler state { max, pending := stream, ending }).Comes sent handled status := by
  induction ht generalizing state sent handled status with
  | waiting hopen hcut hend =>
    subst hopen
    rw [serve_of_waiting (Receiver.read_of_cut_end hcut hend none)]
    cases hs with
    | waiting => exact ⟨rfl, rfl, rfl⟩
    | closed _ h => cases h
  | ended hstop =>
    subst hstop
    rw [serve_of_end rfl]
    cases hs with
    | waiting _ h => cases h
    | closed => exact ⟨rfl, rfl, rfl⟩
  | failed hstop =>
    subst hstop
    cases hs
    rw [serve_of_error rfl]
    exact ⟨rfl, rfl, rfl⟩
  | shortHeader hstop hne h =>
    subst hstop
    exact serve_of_isEnd (.shortHeader hne h) trivial hs
  | shortBody hstop hsize h =>
    subst hstop
    exact serve_of_isEnd (.shortBody hsize h) trivial hs
  | @tooLarge size rest _ hsize h _ ih =>
    have hread := Receiver.read_of_cut (.tooLarge hsize h rest) Outcome.not_isEnd_tooLarge ending
    exact serve_of_read hread rfl hs ih
  | @frame body rest _ h _ ih =>
    have hread := Receiver.read_of_cut (.frame h rest) Outcome.not_isEnd_body ending
    exact serve_of_read hread rfl hs ih

end Parley
