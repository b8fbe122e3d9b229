import Parley.Proofs.Message.Codec
import Parley.Proofs.Server.Advance
import Parley.Proofs.Transport.Messages

/-!
# An echo is exact

A server that answers each request with the request sends back what it was sent, byte for byte: a
body that is read as a message is what the message is written as, and as long. So the limit that the
request was within admits the response as well.

**Where it stops.** `Longest` is the longest beginning of a stream that is made of complete frames
within the limit whose bodies are messages. What is behind it begins with something else, and
reading this ends the service (`Ends`): no byte of it is sent back.

**Theorem (`Crew.echoes`).** Whatever the pieces in which the bytes come and whatever happens at
other connections, what has been sent back on a connection is a part of this beginning of the bytes
that its other end sends. Once the connection has ended it is all of it, and the connection comes
to that in any case.
-/

namespace Parley

open Parley.Frame (Outcome Cut)

variable {max : UInt32} {stream rest good body : List UInt8}

/-! ## Good beginnings -/

/-- Complete frames within the limit, whose bodies are messages. -/
def WellFramed (max : UInt32) (bytes : List UInt8) : Prop :=
  ∃ bodies : List (List UInt8),
    (∀ body ∈ bodies, body.length ≤ max.toNat ∧ ∃ request, Message.decode body = .ok request) ∧
      bytes = bodies.flatMap Frame.encode

/-- The longest beginning of a stream that is well framed. -/
structure Longest (max : UInt32) (stream good : List UInt8) : Prop where
  isPrefix : good <+: stream
  framed : WellFramed max good
  longest : ∀ other, other <+: stream → WellFramed max other → other <+: good

theorem WellFramed.cut {other : List UInt8} (h : WellFramed max other) (hp : other <+: stream) :
    other = [] ∨ ∃ body more left, other = Frame.encode body ++ more ∧ WellFramed max more ∧
      more <+: left ∧ (∃ request, Message.decode body = .ok request) ∧
        Cut max stream (.body body) left := by
  obtain ⟨bodies, hbodies, rfl⟩ := h
  cases bodies with
  | nil => exact .inl rfl
  | cons body bodies =>
    obtain ⟨⟨hfits, hmessage⟩, hmore⟩ := List.forall_mem_cons.mp hbodies
    obtain ⟨tail, rfl⟩ := hp
    rw [List.flatMap_cons, List.append_assoc]
    exact .inr ⟨body, _, _, rfl, ⟨bodies, hmore, rfl⟩, ⟨tail, rfl⟩, hmessage, .frame hfits _⟩

theorem longest_nil
    (hbad : ∀ body left request, Cut max stream (.body body) left →
      Message.decode body ≠ .ok request) : Longest max stream [] where
  isPrefix := List.nil_prefix
  framed := ⟨[], nofun, rfl⟩
  longest other hp hframed := by
    rcases hframed.cut hp with rfl | ⟨body, more, left, -, -, -, ⟨request, hmessage⟩, hcut⟩
    · exact List.prefix_refl _
    · exact absurd hmessage (hbad body left request hcut)

theorem Longest.cons (h : Longest max rest good) (hfits : body.length ≤ max.toNat)
    {request : Message} (hmessage : Message.decode body = .ok request) :
    Longest max (Frame.encode body ++ rest) (Frame.encode body ++ good) where
  isPrefix := (List.prefix_append_right_inj _).mpr h.isPrefix
  framed := by
    obtain ⟨bodies, hbodies, rfl⟩ := h.framed
    exact ⟨body :: bodies, List.forall_mem_cons.mpr ⟨⟨hfits, request, hmessage⟩, hbodies⟩, rfl⟩
  longest other hp hframed := by
    rcases hframed.cut hp with rfl | ⟨first, more, left, rfl, hmore, hleft, -, hcut⟩
    · exact List.nil_prefix
    · obtain ⟨hfirst, rfl⟩ := hcut.unique (.frame hfits rest)
      cases hfirst
      exact (List.prefix_append_right_inj _).mpr (h.longest more hleft hmore)

/-! ## The service of an echo -/

/-- What a service comes to by the read that brings no request. -/
inductive Ends : Option Report → ServiceStatus → Prop
  | waits : Ends none .waiting
  | closes : Ends (some (.ok none)) .closed
  | drops (error : TransportError) : Ends (some (.error error)) (.dropped error)

/-- **The response to a request within the limit is the frame that the request came in.** -/
theorem Message.frame_of_decode {request : Message} (hfits : body.length ≤ max.toNat)
    (h : Message.decode body = .ok request) : request.frame max = .ok (Frame.encode body) := by
  obtain ⟨-, -, rfl⟩ := Message.decode_eq_ok.mp h
  exact frame_of_le hfits

theorem serve_echo_of_good {request : Message} (hcut : Cut max stream (.body body) rest)
    (h : Message.decode body = .ok request) (ending : Option Ending) :
    serve .echo () { max, pending := stream, ending } =
      (serve .echo () { max, pending := rest, ending }).precede request request
        (Frame.encode body) := by
  have hread : ({ max, pending := stream, ending } : Receiver).read =
      (some (.ok (some request)), { max, pending := rest, ending }) := by
    rw [Receiver.read_of_cut hcut Outcome.not_isEnd_body, Report.ofOutcome, Report.ofBody, h]
    rfl
  have hframe := Message.frame_of_decode hcut.eq_encode_of_body.1 h
  rw [serve_of_request hread]
  simp only [Handler.echo, Handler.ofFunction, hframe]

/-- Without a good frame nothing is sent, and the read ends the service. -/
theorem serve_of_bad {σ : Type} (handler : Handler σ) (state : σ) (ending : Option Ending)
    (hbad : ∀ body left request, Cut max stream (.body body) left →
      Message.decode body ≠ .ok request) :
    let receiver : Receiver := { max, pending := stream, ending }
    (serve handler state receiver).sent = [] ∧
      Ends receiver.read.1 (serve handler state receiver).status := by
  intro receiver
  obtain ⟨report, left, hread⟩ : ∃ report left, receiver.read = (report, left) := ⟨_, _, rfl⟩
  rw [hread]
  match report with
  | none =>
    rw [serve_of_waiting hread]
    exact ⟨rfl, .waits⟩
  | some (.ok none) =>
    rw [serve_of_end hread]
    exact ⟨rfl, .closes⟩
  | some (.error error) =>
    rw [serve_of_error hread]
    exact ⟨rfl, .drops error⟩
  | some (.ok (some request)) =>
    obtain ⟨body, hcut, hdecode⟩ := Receiver.cut_of_read hread
    exact absurd hdecode (hbad body _ request hcut)

/-- **Serving by echo** sends back the longest good beginning of what was received, and comes to
what reading the rest comes to. The induction is along the good frames. -/
theorem serve_echo (max : UInt32) (ending : Option Ending) (stream : List UInt8) :
    let service := serve .echo () { max, pending := stream, ending }
    Longest max stream service.sent ∧ ∃ rest, stream = service.sent ++ rest ∧
      Ends ({ max, pending := rest, ending } : Receiver).read.1 service.status := by
  induction hlength : stream.length using Nat.strong_induction_on generalizing stream with
  | h length ih =>
    intro service
    by_cases hgood : ∃ body rest request, Cut max stream (.body body) rest ∧
        Message.decode body = .ok request
    · obtain ⟨body, rest, request, hcut, hdecode⟩ := hgood
      obtain ⟨hfits, hstream⟩ := hcut.eq_encode_of_body
      have hshorter : rest.length < length := by
        rw [← hlength]
        exact Frame.length_lt_of_parse (Frame.parse_of_cut hcut)
      obtain ⟨hlongest, left, hrest, hends⟩ := ih rest.length hshorter rest rfl
      have hservice : service = _ := serve_echo_of_good hcut hdecode ending
      rw [hservice, hstream]
      refine ⟨hlongest.cons hfits hdecode, left, ?_, hends⟩
      show Frame.encode body ++ rest = Frame.encode body ++ _ ++ left
      rw [List.append_assoc, ← hrest]
    · have hbad : ∀ body left request, Cut max stream (.body body) left →
          Message.decode body ≠ .ok request := fun body left request hcut hdecode =>
        hgood ⟨body, left, request, hcut, hdecode⟩
      obtain ⟨hsent, hends⟩ := serve_of_bad .echo () ending hbad
      have hsent : service.sent = [] := hsent
      rw [hsent]
      exact ⟨longest_nil hbad, stream, rfl, hends⟩

namespace Server.Crew

/-- **An echo is exact.** Take any run of an echo server with valid settings that is not stopped,
and a connection whose socket can be set up and takes what is written. The bytes that its other end
sends are the longest good beginning of them and a rest. What has been sent back so far is a part of
this beginning. Where the connection has ended it is all of it, and the end is what reading the rest
comes to. The connection comes to that in any case, unless it is turned away, and nobody is if the
system refuses the accept loop nothing. No response is too large: each is the frame that its request
came in. -/
theorem echoes {config : Config} (hvalid : config.validate = .ok ())
    (htimeout : config.readTimeout ≠ some 0) {peers : Nat → Peer} {moves : List Move}
    {crew : Crew Unit} (hrun : (start config .echo () peers).run moves = some crew)
    (hstop : .turn .stop ∉ moves) {id : Nat} {link : Link}
    (hlink : crew.threads.links[id]? = some link) (hopening : (peers id).opening = none)
    (hrefusal : (peers id).refusal = none) :
    let script : Arrivals := (peers id).script
    ∃ good rest status, script.data = good ++ rest ∧
      Longest config.maxFrameSize script.data good ∧
      Ends (Receiver.read ⟨config.maxFrameSize, rest, script.stop?⟩).1 status ∧
      link.sent <+: good ∧
      (∀ ended, link.stage.status? = some ended → link.sent = good ∧ ended = status) ∧
      (link.stage ≠ .turnedAway → Inevitable (Advances id) (Comes id ⟨good, status⟩) crew) ∧
      (.turn .acceptorFails ∉ moves → link.stage ≠ .turnedAway) ∧
      ∀ (body : List UInt8) (request : Message), body.length ≤ config.maxFrameSize.toNat →
        Message.decode body = .ok request →
          request.frame config.maxFrameSize = .ok (Frame.encode body) := by
  intro script
  have hcomputes : Handler.echo.Computes .response := Handler.computes_ofFunction _
  have hkept := kept_of_run hcomputes hrun hstop
  have hsetup : Transport.setUp config = .ok () := by
    simp [Transport.setUp, Transport.validate, hvalid, htimeout, Except.mapError]
  have hfate := (peers id).fate_of_setUp .response hsetup hopening
  rw [hrefusal] at hfate
  obtain ⟨hlongest, rest, hdata, hends⟩ := serve_echo config.maxFrameSize
    script.stop? script.data
  obtain ⟨htrack, -⟩ := hkept.tracks id link hlink
  have hprefix := htrack.isPrefix
  rw [hfate] at hprefix
  refine ⟨_, rest, _, hdata, hlongest, hends, hprefix, fun ended hended => ?_, fun hs => ?_,
    fun hfails => not_turnedAway_of_run hcomputes hrun hstop hfails id link hlink,
    fun body request hfits hdecode => Message.frame_of_decode hfits hdecode⟩
  · obtain ⟨heq, -⟩ := htrack.of_status? hended
    rw [hfate] at heq
    obtain ⟨hsent, hstatus⟩ := Fate.mk.inj heq
    exact ⟨hsent.symm, hstatus.symm⟩
  · have hcomes := hkept.inevitable hlink hs
    rw [hfate] at hcomes
    exact hcomes

/-- A good frame in two pieces, a body that breaks off inside its field, and another good frame: one
frame is sent back, and it is the longest good beginning. -/
theorem echoes_malformed :
    let config : Config := { bufferCapacity := 16, maxFrameSize := 2 }
    let moves : List Move :=
      [.turn .connect, .turn .acceptor, .turn .acceptor, .turn .acceptor, .work 0 .begin,
        .work 0 .owner, .work 0 .read, .work 0 .pump, .work 0 .owner, .work 0 .owner,
        .work 0 .owner, .work 0 .read, .work 0 .pump, .work 0 .owner, .work 0 (.push 9),
        .work 0 (.push 9), .work 0 .owner, .work 0 .owner, .work 0 .owner, .work 0 .owner,
        .work 0 .readEnd, .work 0 .pump, .work 0 .owner]
    let error : MessageError := .undecodable (.unexpectedEnd 1)
    ∃ peer : Peer, peer.script = [.ok [0, 0, 0, 2, 0], .ok [1, 0, 0, 0, 1, 9, 0, 0, 0, 0]] ∧
      ∃ crew link, (start config .echo () fun _ => peer).run moves = some crew ∧
        crew.threads.links[0]? = some link ∧ link.stage = .leaving (.dropped (.malformed error)) ∧
        link.sent = [0, 0, 0, 2, 0, 1] ∧
        Longest 2 [0, 0, 0, 2, 0, 1, 0, 0, 0, 1, 9, 0, 0, 0, 0] [0, 0, 0, 2, 0, 1] := by
  intro config moves error
  let peer : Peer := {
    script := [.ok [0, 0, 0, 2, 0], .ok [1, 0, 0, 0, 1, 9, 0, 0, 0, 0]]
    feasible := by simp [Transport.pumpSize]
    lasting := by simp }
  have hmap : ((start config .echo () fun _ => peer).run moves).map
      (fun crew => crew.threads.links.map fun link => (link.stage, link.sent)) =
      some [(.leaving (.dropped (.malformed error)), [0, 0, 0, 2, 0, 1])] := by cbv
  obtain ⟨crew, hrun, hlinks⟩ := Option.map_eq_some_iff.mp hmap
  obtain ⟨link, hlinks, hlink⟩ := List.map_eq_singleton_iff.mp hlinks
  obtain ⟨hstage, hsent⟩ := Prod.mk.inj hlink
  have hfirst : crew.threads.links[0]? = some link := by rw [hlinks]; rfl
  obtain ⟨good, rest, status, -, hlongest, -, -, hended, -, -, -⟩ :=
    echoes (by decide) (by decide) hrun (by simp [moves]) hfirst rfl rfl
  obtain ⟨rfl, -⟩ := hended _ (by rw [hstage]; rfl)
  rw [hsent] at hlongest
  exact ⟨peer, rfl, crew, link, hrun, hfirst, hstage, hsent, hlongest⟩

end Server.Crew

end Parley
