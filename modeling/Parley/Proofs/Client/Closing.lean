import Parley.Proofs.Client.Line
import Parley.Proofs.Client.Weight

/-!
# Closing a connection under a send

A connection may be closed from elsewhere while its client waits for a response. The socket brings
what it holds and then the end, the pump closes the buffer behind it, and the client's read comes
to an end of its own. What this is depends on how much of the response had arrived.

**The invariant** (`Line.Settles`). Together, what the client has received and what its socket
holds stay what they were when the connection was closed, and the end is all that is still to come.

**Theorem (`Line.close_settles`).** Whatever the threads do in whichever order, the send comes to
what a stream of just these bytes begins with, and the client has lost its connection unless this
is a whole response. It is told that the connection is closed if and only if nothing of the
response had arrived; a part of one is reported as a truncated frame (`Line.close_inside_header`).
-/

namespace Parley

open Transport (Intake Owner)
open Parley.Frame (Outcome Cut)

/-! ## The last arrivals -/

namespace Receiver

/-- These bytes arrive, and then the end. -/
def finish (receiver : Receiver) (held : List UInt8) : Receiver :=
  (receiver.arrive (.ok held)).arrive (.ok [])

/-- It does not matter in how many pieces the bytes arrive. -/
theorem finish_arrive {n : Nat} (hn : 0 < n) (receiver : Receiver) (held : List UInt8) :
    (receiver.arrive (.ok (held.take n))).finish (held.drop n) = receiver.finish held := by
  obtain ⟨max, pending, ending⟩ := receiver
  obtain ⟨m, rfl⟩ : ∃ m, n = m + 1 := ⟨n - 1, by omega⟩
  cases ending with
  | some ending =>
    have hstopped : ∀ arrival, arrive { max, pending, ending := some ending } arrival =
        { max, pending, ending := some ending } := arrive_of_stopped (by simp)
    simp only [finish, hstopped]
  | none =>
    cases held with
    | nil => rfl
    | cons byte more =>
      have hall := List.take_append_drop m more
      cases hdrop : more.drop m with
      | nil =>
        rw [hdrop, List.append_nil] at hall
        simp [finish, arrive, deliver, stop, hdrop, hall]
      | cons next rest =>
        rw [hdrop] at hall
        simp [finish, arrive, deliver, stop, hdrop, hall]

theorem exists_read_of_cut {max : UInt32} {stream left : List UInt8} {outcome : Outcome}
    (h : Cut max stream outcome left) :
    ∃ last, ({ max, pending := stream, ending := some .ended } : Receiver).read =
      (some (.ofOutcome outcome), last) := by
  by_cases hend : outcome.IsEnd
  · rw [read_of_cut_end h hend]
    exact ⟨_, rfl⟩
  · rw [read_of_cut h hend]
    exact ⟨_, rfl⟩

theorem finish_of_open (max : UInt32) (pending held : List UInt8) :
    finish { max, pending } held = { max, pending := pending ++ held, ending := some .ended } := by
  cases held with
  | nil => simp [finish, arrive, stop]
  | cons byte more => simp [finish, arrive, deliver, stop]

/-- What can be read is read whatever else arrives. -/
theorem read_finish {receiver rest : Receiver} {report : Report} (held : List UInt8)
    (h : receiver.read = (some report, rest)) :
    (receiver.finish held).read = (some report, rest.finish held) :=
  read_arrive (read_arrive h (.ok held)) (.ok [])

end Receiver

theorem Client.responseOf_eq_closed {max : UInt32} {stream left : List UInt8} {outcome : Outcome}
    (h : Cut max stream outcome left) :
    responseOf (.ofOutcome outcome) = .error .closed ↔ stream = [] := by
  cases h with
  | ended => exact iff_of_true rfl rfl
  | shortHeader hne =>
    refine iff_of_false ?_ hne
    intro heq
    cases heq
  | tooLarge hs | shortBody hs =>
    refine iff_of_false ?_ (by simp [bigEndian, Frame.headerSize])
    intro heq
    cases heq
  | @frame body hle =>
    refine iff_of_false ?_ (by simp [Frame.encode, bigEndian, Frame.headerSize])
    simp only [Report.ofOutcome, Report.ofBody]
    cases Message.decode body with
    | error error => intro heq; cases heq
    | ok message => intro heq; cases heq

namespace Line

variable {line next : Line} {action : Action} {capacity : Nat} {max : UInt32}
  {stream : List UInt8} {request : Message}
  {past : List (Message × Except TransportError Message)}
  {result : Except TransportError Message}

/-- The bytes of the response that have arrived: those that the owner has put together, those on
their way to it, and those that the socket holds. -/
def unread (line : Line) : List UInt8 :=
  (match line.caller.intake.owner with
    | .reading assembly => assembly.bytes
    | _ => []) ++ line.caller.intake.underWay ++ line.responses.held

/-- A send waits for its response, and the pump has met neither the end of the stream nor a
failure. -/
structure Parked (line : Line) (request : Message) : Prop where
  asking : line.caller.asking = .awaiting request
  going : line.caller.intake.ending? = none

/-- The send has returned with this result, and the client has lost its connection over an error. -/
def Returned (request : Message) (past : List (Message × Except TransportError Message))
    (result : Except TransportError Message) (line : Line) : Prop :=
  (∃ more, line.caller.answered = past ++ (request, result) :: more) ∧
    ∀ error, result = .error error → line.caller.client.connected = false

/-- How far a send has come on a connection that has been closed: its result is settled by the
bytes that had arrived. -/
inductive Settles (capacity : Nat) (max : UInt32) (stream : List UInt8) (request : Message)
    (past : List (Message × Except TransportError Message))
    (result : Except TransportError Message) (line : Line) : Prop
  | waits {receiver : Receiver} (ha : line.caller.asking = .awaiting request)
      (hpast : line.caller.answered = past) (hcut : line.responses.cut = true)
      (ht : line.caller.intake.Tracks capacity receiver)
      (hread : receiver.finish line.responses.held =
        { max, pending := stream, ending := some .ended })
  | leaves {error : TransportError} (ha : line.caller.asking = .leaving request error)
      (hresult : result = .error error) (hpast : line.caller.answered = past)
      (hcut : line.responses.cut = true)
  | settled (h : line.Returned request past result)

theorem settles_close (hs : line.caller.Sound capacity) (hp : line.Parked request) :
    line.close.Settles capacity line.caller.intake.max line.unread request line.caller.answered
      result := by
  have hplaces := hs.places
  rw [hp.asking] at hplaces
  -- The owner is in the middle of a frame: it cannot have met an end that the pump has not.
  obtain ⟨assembly, ho⟩ : ∃ assembly, line.caller.intake.owner = .reading assembly := by
    cases ho : line.caller.intake.owner with
    | reading assembly => exact ⟨assembly, rfl⟩
    | ending report =>
      have hfin := (hs.intake.drained (by rw [ho]; trivial)).1
      have hgoing := hp.going
      simp [Intake.ending?, hfin] at hgoing
    | idle | leaving | releasing | joining | gone =>
      rw [ho] at hplaces
      cases hplaces.2
  have hholds : line.caller.intake.owner.Holds line.caller.intake.max assembly.bytes := by
    rw [ho]
    exact .reading assembly
  have hread := Receiver.finish_of_open line.caller.intake.max
    (assembly.bytes ++ line.caller.intake.underWay) line.responses.held
  have hunread : line.unread =
      assembly.bytes ++ line.caller.intake.underWay ++ line.responses.held := by rw [unread, ho]
  rw [← hunread] at hread
  refine .waits hp.asking rfl rfl ⟨hs.intake, fun _ => ⟨_, hholds, ?_⟩⟩ hread
  rw [← hp.going]
  rfl

/-! ## The way to the result -/

theorem Returned.turn (h : line.Returned request past result) (hs : line.caller.Sound capacity)
    (ht : line.Turn action next) : next.Returned request past result := by
  obtain ⟨⟨more, hmore⟩, hlost⟩ := h
  obtain ⟨⟨later, hlater⟩, hkeeps⟩ := ht.keeps hs
  refine ⟨⟨more ++ later, ?_⟩, fun error he => hkeeps (hlost error he)⟩
  rw [← hlater, hmore, List.append_assoc]
  rfl

/-- **Every move leads on to the same result**, as long as no read of the socket fails. -/
theorem Settles.turn {told : Report} {last : Receiver}
    (h : line.Settles capacity max stream request past (Client.responseOf told))
    (hs : line.caller.Sound capacity)
    (htold : ({ max, pending := stream, ending := some .ended } : Receiver).read =
      (some told, last))
    (hk : ∀ failure, action = .fail failure → failure.kind = .interrupted)
    (ht : line.Turn action next) :
    next.Settles capacity max stream request past (Client.responseOf told) := by
  cases h with
  | settled hreturned => exact .settled (hreturned.turn hs ht)
  | @leaves error ha hresult hpast hcut =>
    cases ht with
    | asks hask => simp [Caller.ask, ha] at hask
    | writes hpush => simp [Caller.push, ha] at hpush
    | breaks hbreak => simp [Caller.breakOff, ha] at hbreak
    | sockets hsame => exact .leaves ha hresult hpast (hsame hcut).1
    | pulls hn hr harrive =>
      cases (Wire.receive_of_cut hcut _).symm.trans hr
      exact .leaves ha hresult hpast hcut
    | fails | pumps => exact .leaves ha hresult hpast hcut
    | turns hturn hheld hshut =>
      cases hs.turn_of_turn hturn with
      | goes => exact .leaves ha hresult hpast (hshut hcut)
      | told hother => cases ha.symm.trans hother
      | parts hsame =>
        cases ha.symm.trans hsame
        have hplaces := hs.places
        rw [ha] at hplaces
        refine .settled ⟨⟨[], ?_⟩, fun _ _ => hplaces.1⟩
        rw [hpast, hresult]
  | @waits receiver ha hpast hcut htracks hread =>
    cases ht with
    | asks hask => simp [Caller.ask, ha] at hask
    | writes hpush => simp [Caller.push, ha] at hpush
    | breaks hbreak => simp [Caller.breakOff, ha] at hbreak
    | sockets hsame =>
      obtain ⟨hcut', hheld⟩ := hsame hcut
      rw [← hheld] at hread
      exact .waits ha hpast hcut' htracks hread
    | pulls hn hr harrive =>
      cases (Wire.receive_of_cut hcut _).symm.trans hr
      rw [← Receiver.finish_arrive hn] at hread
      exact .waits ha hpast hcut (htracks.arrive (Intake.arrives_of_arrive harrive)) hread
    | @fails failure intake harrive =>
      cases Intake.arrives_of_arrive harrive with
      | interrupted => exact .waits ha hpast hcut htracks hread
      | failed _ hne => exact absurd (hk failure rfl) hne
    | pumps hpump =>
      exact .waits ha hpast hcut (htracks.pump (Intake.turn_of_pumpTurn hpump)) hread
    | @turns caller responses hturn hheld hshut =>
      rw [← hheld] at hread
      cases hs.turn_of_turn hturn with
      | goes hstep =>
        obtain ⟨rest, hrest, rfl⟩ := htracks.step hstep
        exact .waits ha hpast (hshut hcut) hrest hread
      | parts hother => cases ha.symm.trans hother
      | @told request' intake report hsame hstep ho =>
        cases ha.symm.trans hsame
        obtain ⟨rest, hrest, htells⟩ := htracks.step hstep
        have hread' : receiver.read = (some report, rest) := htells
        have hreport := Receiver.read_finish responses.held hread'
        rw [hread, htold] at hreport
        cases hreport
        cases hresult : Client.responseOf told with
        | ok response =>
          rw [Caller.conclude_of_ok hresult]
          exact .settled ⟨⟨[], by rw [← hpast]⟩, nofun⟩
        | error error =>
          rw [Caller.conclude_of_error hresult]
          exact .leaves rfl rfl hpast (hshut hcut)

/-! ## The result is reached -/

/-- A read of the socket comes to its end, or a thread takes its turn that does not wait. -/
inductive Advances (line next : Line) : Prop
  | pull {n : Nat} (h : line.step (.pull n) = some next)
  | pump (ha : line.awake .pump = true) (h : line.step .pump = some next)
  | owner (ha : line.awake .owner = true) (h : line.step .owner = some next)

theorem Advances.exists_turn (h : line.Advances next) :
    ∃ action, line.Turn action next ∧ ∀ failure, action ≠ .fail failure := by
  cases h with
  | pull h => exact ⟨_, turn_of_step h, nofun⟩
  | pump ha h => exact ⟨_, turn_of_step h, nofun⟩
  | owner ha h => exact ⟨_, turn_of_step h, nofun⟩

/-- A byte that the socket holds weighs more than one that has been read. -/
def weight (line : Line) : Nat := line.caller.weight + 5 * line.responses.held.length

/-- **Every move makes a closed connection lighter.** -/
theorem Advances.weight_lt (h : line.Advances next) (hs : line.caller.Sound capacity) :
    next.weight < line.weight := by
  cases h with
  | pull h =>
    obtain ⟨bytes, intake, responses, hn, hr, harrive, rfl⟩ := exists_of_pull h
    have hlt := Intake.weight_pull hr harrive
    simp only [weight, Caller.weight]
    omega
  | pump ha h =>
    obtain ⟨intake, hpump, rfl⟩ := Option.map_eq_some_iff.mp h
    have hlt := (Intake.turn_of_pumpTurn hpump).weight_lt (by simpa [awake, Intake.awake] using ha)
    simp only [weight, Caller.weight]
    omega
  | owner ha h =>
    obtain ⟨caller, responses, hturn, hheld, -, rfl⟩ := exists_of_turn h
    have hlt := hs.weight_turn (by simpa [awake, Intake.awake] using ha) hturn
    simp only [weight, hheld]
    omega

theorem exists_pull (hcut : line.responses.cut = true)
    (hp : line.caller.intake.pump = .receiving) :
    ∃ next, line.step (.pull Transport.pumpSize) = some next := by
  obtain ⟨intake, harrive⟩ := Intake.exists_arrive hp
    (.ok (line.responses.held.take Transport.pumpSize))
    (fun chunk heq => Except.ok.inj heq ▸ List.length_take_le _ _)
  have hpos : Transport.pumpSize ≠ 0 := by decide
  simp [step, pull, hpos, Wire.receive_of_cut hcut, harrive]

/-- **Somebody can go on**, as long as the client is in the middle of a read or of giving up. -/
theorem exists_advance (hs : line.caller.Sound capacity) (hcut : line.responses.cut = true)
    (hidle : line.caller.intake.owner ≠ .idle) (hgone : line.caller.intake.owner ≠ .gone) :
    ∃ next, line.Advances next := by
  rcases hs.intake.exists_turn hidle hgone with ⟨hp, -⟩ | ⟨intake, ha, ht⟩ | ⟨result, ha, ht⟩
  · obtain ⟨next, hpull⟩ := exists_pull hcut hp
    exact ⟨next, .pull hpull⟩
  · exact ⟨_, .pump ha (by rw [step, ht]; rfl)⟩
  · have hturn : ∃ caller, line.caller.turn = some caller := by simp [Caller.turn, ht]
    obtain ⟨caller, hturn⟩ := hturn
    exact ⟨_, .owner ha (by rw [step, turn, hturn]; rfl)⟩

/-- **A send comes to its result** once the connection is closed. -/
theorem Settles.inevitable {told : Report} {last : Receiver}
    (h : line.Settles capacity max stream request past (Client.responseOf told))
    (hs : line.caller.Sound capacity)
    (htold : ({ max, pending := stream, ending := some .ended } : Receiver).read =
      (some told, last)) :
    Inevitable Advances (Returned request past (Client.responseOf told)) line := by
  let inv (line : Line) : Prop := line.caller.Sound capacity ∧
    line.Settles capacity max stream request past (Client.responseOf told)
  have hbusy : ∀ {line : Line}, inv line →
      Returned request past (Client.responseOf told) line ∨ line.responses.cut = true ∧
        line.caller.intake.owner ≠ .idle ∧ line.caller.intake.owner ≠ .gone := by
    intro line hinv
    obtain ⟨hs, hsettles⟩ := hinv
    have hplaces := hs.places
    cases hsettles with
    | settled hreturned => exact .inl hreturned
    | waits ha hpast hcut =>
      rw [ha] at hplaces
      exact .inr ⟨hcut, hplaces.2.busy⟩
    | leaves ha hresult hpast hcut =>
      rw [ha] at hplaces
      exact .inr ⟨hcut, hplaces.2.busy⟩
  refine inevitable_of_weight weight inv ?_ ?_ ⟨hs, h⟩
  · intro line hinv
    rcases hbusy hinv with hreturned | ⟨hcut, hidle, hgone⟩
    · exact .inl hreturned
    · exact .inr (exists_advance hinv.1 hcut hidle hgone)
  · intro line next hinv hadvance
    obtain ⟨action, ht, hk⟩ := hadvance.exists_turn
    rcases hbusy hinv with hreturned | ⟨hcut, -, -⟩
    · exact .inl (hreturned.turn hinv.1 ht)
    · have hnext := hinv.2.turn hinv.1 htold (fun failure heq => absurd heq (hk failure)) ht
      exact .inr ⟨⟨sound_turn hinv.1 ht, hnext⟩, hadvance.weight_lt hinv.1⟩

/-- **A send under which the connection is closed.** Let a client be connected to any peer, let it
wait for a response in the middle of its stream, and let the connection be closed. Then the send
comes to what a stream of just the bytes that had arrived begins with, whatever the client, its
pump and the peer do in whichever order, unless a read of the socket fails; the client has lost its
connection if this is an error; and the threads cannot but come to it. The error is that the
connection is closed just if nothing of the response had arrived. -/
theorem close_settles {config : Config} {held : Nat} {start : Line} {before : List Action}
    (hstart : start? config held = some start) (hrun : start.run before = some line)
    (hp : line.Parked request) :
    ∃ outcome rest, Cut line.caller.intake.max line.unread outcome rest ∧
      let result := Client.responseOf (.ofOutcome outcome)
      (result = .error .closed ↔ line.unread = []) ∧
      (∀ after last, line.close.run after = some last →
        (∀ failure, .fail failure ∈ after → failure.kind = .interrupted) →
        last.caller.answered = line.caller.answered ∨
          Returned request line.caller.answered result last) ∧
      Inevitable Advances (Returned request line.caller.answered result) line.close := by
  have hs := sound_of_run hstart hrun
  obtain ⟨outcome, rest, hcut⟩ := Frame.exists_cut line.caller.intake.max line.unread
  obtain ⟨last, hread⟩ := Receiver.exists_read_of_cut hcut
  refine ⟨outcome, rest, hcut, Client.responseOf_eq_closed hcut, ?_, ?_⟩
  · intro after last hafter hk
    have hclosed : line.close.caller.Sound config.bufferCapacity := hs
    obtain ⟨-, hsettles⟩ := run_turn (P := fun state => state.caller.Sound config.bufferCapacity ∧
        state.Settles config.bufferCapacity line.caller.intake.max line.unread request
          line.caller.answered (Client.responseOf (.ofOutcome outcome)))
      (fun h hm ht => ⟨sound_turn h.1 ht,
        h.2.turn h.1 hread (fun failure heq => hk failure (heq ▸ hm)) ht⟩)
      ⟨hclosed, settles_close hs hp⟩ hafter
    cases hsettles with
    | waits ha hpast | leaves ha _ hpast => exact .inl hpast
    | settled hreturned => exact .inr hreturned
  · exact (settles_close hs hp).inevitable hs hread

/-- Nothing of the response has arrived. -/
theorem close_settles_unanswered :
    let config : Config := { bufferCapacity := 8, maxFrameSize := 16 }
    let request : Message := { fields := #[.bool true] }
    let before : List Action := [.send request, .push 6, .push 1]
    ∃ start line, start? config 8 = some start ∧ start.run before = some line ∧
      line.Parked request ∧
      Inevitable Advances (Returned request [] (.error .closed)) line.close := by
  intro config request before
  have hrun : ((start? config 8).bind fun start => (start.run before).map fun line =>
      (line.caller.asking, line.caller.intake.ending?, line.unread, line.caller.answered)) =
      some (.awaiting request, none, [], []) := by
    cbv
  obtain ⟨start, hstart, hrun⟩ := Option.bind_eq_some_iff.mp hrun
  obtain ⟨line, hrun, hline⟩ := Option.map_eq_some_iff.mp hrun
  simp only [Prod.mk.injEq] at hline
  obtain ⟨hasking, hgoing, hunread, hanswered⟩ := hline
  have hp : line.Parked request := ⟨hasking, hgoing⟩
  obtain ⟨outcome, rest, -, hclosed, -, hreturns⟩ := close_settles hstart hrun hp
  rw [hclosed.mpr hunread, hanswered] at hreturns
  exact ⟨start, line, hstart, hrun, hp, hreturns⟩

/-- **A connection that is closed inside a header**: the send does not come to a closed connection,
but to a stream that ended after two of four bytes. -/
theorem close_inside_header :
    let config : Config := { bufferCapacity := 8, maxFrameSize := 16 }
    let request : Message := { fields := #[.bool true] }
    let before : List Action := [.send request, .push 6, .push 1, .deliver [0, 0]]
    let after : List Action := [.pull 2, .pump, .owner, .pull 1, .pump, .owner, .owner, .owner,
      .owner, .owner]
    ∃ start line last, start? config 8 = some start ∧ start.run before = some line ∧
      line.Parked request ∧ line.close.run after = some last ∧
      last.caller.answered = [(request, .error (.frame (.truncated 2 4)))] := by
  intro config request before after
  have hrun : ((start? config 8).bind fun start => (start.run before).bind fun line =>
      (line.close.run after).map fun last =>
        (line.caller.asking, line.caller.intake.ending?, last.caller.answered)) =
      some (.awaiting request, none, [(request, .error (.frame (.truncated 2 4)))]) := by
    cbv
  obtain ⟨start, hstart, hrun⟩ := Option.bind_eq_some_iff.mp hrun
  obtain ⟨line, hrun, hlast⟩ := Option.bind_eq_some_iff.mp hrun
  obtain ⟨last, hlast, hall⟩ := Option.map_eq_some_iff.mp hlast
  simp only [Prod.mk.injEq] at hall
  obtain ⟨hasking, hgoing, hanswered⟩ := hall
  exact ⟨start, line, last, hstart, hrun, ⟨hasking, hgoing⟩, hlast, hanswered⟩

end Line

end Parley
