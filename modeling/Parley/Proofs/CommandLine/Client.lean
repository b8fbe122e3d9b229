import Parley.Proofs.CommandLine.Arguments
import Parley.Proofs.Exchange.Echo
import Parley.Proofs.Server.Settings

/-!
# What the client program prints

The program sends one request for each of its values and prints what comes back. Two loops are
behind this: one over the values, which ends with the first send that fails, and one over the fields
of a response, which ends with the first that is no string and ends the other one with it.

**Theorem (`CommandLine.Client.prints_responses`).** Any texts can be the values of the program,
with any limit. Over any connection it prints the leading strings of each response up to the first
thing that goes wrong, and sends nothing behind that. At an echo it prints the values themselves up
to the first whose request is above one of the two limits. A request takes ten bytes more than its
text.

**The induction** in either case (`run_eq`, `sendAll_echo`) is on the values, for any connection, as
each send leaves the next one another connection. At an echo the connection is the same again after
each send that succeeds, but for what the handler keeps.
-/

namespace Parley

/-- The line that a field is printed as; one that is no string is not printed. -/
def Field.line? : Field → Option String
  | string text => some (text.getD "<null>")
  | _ => none

/-- The field is printed. -/
def Field.isPrinted (field : Field) : Bool := field.line?.isSome

/-- The fields that have not been read. -/
def Message.unread (message : Message) : List Field := message.fields.toList.drop message.cursor

theorem Message.length_unread (message : Message) : message.unread.length = message.remaining := by
  simp [unread, remaining]

theorem Message.get_string_of_unread {message : Message} {field : Field} {more : List Field}
    (h : message.unread = field :: more) :
    (∃ text rest, field = .string text ∧ message.get .string = (.ok text, rest) ∧
        rest.unread = more) ∨
      field.line? = none ∧ ∃ error, message.get .string = (.error error, message) := by
  obtain ⟨fields, cursor⟩ := message
  have hlt : cursor < fields.toList.length := by
    refine Nat.lt_of_not_le fun hle => ?_
    rw [unread, List.drop_of_length_le hle] at h
    cases h
  rw [unread, List.drop_eq_getElem_cons hlt] at h
  obtain ⟨hfield, hmore⟩ := List.cons.inj h
  have hnext : fields[cursor]? = some field := by
    rw [← Array.getElem?_toList, List.getElem?_eq_getElem hlt, hfield]
  cases field with
  | string text =>
    refine .inl ⟨text, { fields, cursor := cursor + 1 }, rfl, ?_, hmore⟩
    simp only [get, hnext]
    rfl
  | bool | byte | short | int | long | float | double | timestamp | stringList | stringArray =>
    refine .inr ⟨rfl, ?_⟩
    simp only [get, hnext]
    exact ⟨_, rfl⟩

namespace CommandLine.Client

/-! ## The lines of a response -/

/-- The lines of the strings in front of the first field that is none. -/
def lines (fields : List Field) : List String :=
  (fields.takeWhile Field.isPrinted).filterMap Field.line?

/-- **A response is printed** up to its first field that is no string, if there is one. -/
theorem printResponse_eq (response : Message) : printResponse response =
    { lines := lines response.unread, succeeded := response.unread.all Field.isPrinted } := by
  rw [printResponse, ← response.length_unread]
  generalize hunread : response.unread = fields
  induction fields generalizing response with
  | nil => rfl
  | cons field more ih =>
    rw [List.length_cons, printFields]
    rcases response.get_string_of_unread hunread with
      ⟨text, rest, rfl, hget, hrest⟩ | ⟨hline, error, hget⟩
    · rw [hget]
      simp only [ih rest hrest]
      rfl
    · have hprinted : field.isPrinted = false := by rw [Field.isPrinted, hline]; rfl
      rw [hget]
      simp [lines, hprinted]

/-! ## The loop -/

/-- The lines that are printed of what a send comes to. -/
def printed : Except TransportError Message → List String
  | .ok response => lines response.unread
  | .error _ => []

/-- The send succeeds, and all of its response is printed. -/
def isWhole : Except TransportError Message → Bool
  | .ok response => response.unread.all Field.isPrinted
  | .error _ => false

section Run

variable {κ : Type} {send : κ → Message → Except TransportError Message × κ}

/-- What becomes of a connection over which requests are sent one after the other. -/
def after (send : κ → Message → Except TransportError Message × κ) (connection : κ)
    (requests : List Message) : κ :=
  requests.foldl (fun connection request => (send connection request).2) connection

theorem after_concat (connection : κ) (requests : List Message) (request : Message) :
    after send connection (requests ++ [request]) =
      (send (after send connection requests) request).2 := by
  rw [after, List.foldl_concat]
  rfl

theorem run_of_error {connection next : κ} {value : String} {error : TransportError}
    (h : send connection (request value) = (.error error, next)) (values : List String) :
    run send connection (value :: values) = ({ succeeded := false }, next) := by
  rw [run, h]

theorem run_of_ok {connection next : κ} {value : String} {response : Message}
    (h : send connection (request value) = (.ok response, next)) (values : List String) :
    run send connection (value :: values) =
      if (printResponse response).succeeded then
        ((printResponse response).andThen (run send next values).1, (run send next values).2)
      else (printResponse response, next) := by
  rw [run, h]

/-- **The loop stops at the first thing that goes wrong**: it prints what the sends up to there come
to, and nothing is sent after it. -/
theorem run_eq (send : κ → Message → Except TransportError Message × κ) (connection : κ)
    (values : List String) :
    let results := Exchange.sendAll send connection (values.map request)
    let whole := (results.takeWhile isWhole).length
    run send connection values =
      ({ lines := (results.take (whole + 1)).flatMap printed
         succeeded := whole = values.length },
        after send connection ((values.take (whole + 1)).map request)) := by
  induction values generalizing connection with
  | nil => rfl
  | cons value values ih =>
    intro results whole
    obtain ⟨result, next, hsend⟩ :
        ∃ result next, send connection (request value) = (result, next) :=
      ⟨_, _, rfl⟩
    have hresults : results = result :: Exchange.sendAll send next (values.map request) := by
      simp only [results, List.map_cons, Exchange.sendAll, hsend]
    have hafter : after send connection (((value :: values).take (whole + 1)).map request) =
        after send next ((values.take whole).map request) := by
      rw [List.take_succ_cons, List.map_cons, after, List.foldl_cons, hsend]
      rfl
    rw [hafter]
    cases hwhole : isWhole result with
    | false =>
      have hnone : whole = 0 := by
        simp only [whole, hresults, List.takeWhile_cons, hwhole]
        rfl
      rw [hnone, hresults]
      simp only [List.take_succ_cons, List.take_zero, List.flatMap_singleton, List.map_nil]
      cases result with
      | error error =>
        rw [run_of_error hsend]
        rfl
      | ok response =>
        have hstops : response.unread.all Field.isPrinted = false := hwhole
        rw [run_of_ok hsend, printResponse_eq, hstops]
        rfl
    | true =>
      have hmore : whole = ((Exchange.sendAll send next (values.map request)).takeWhile
          isWhole).length + 1 := by
        simp only [whole, hresults, List.takeWhile_cons, hwhole]
        rfl
      cases result with
      | error error => cases hwhole
      | ok response =>
        have hgoes : response.unread.all Field.isPrinted = true := hwhole
        rw [run_of_ok hsend, printResponse_eq, hgoes, if_pos rfl, ih next, ← hmore, hresults,
          List.take_succ_cons, List.flatMap_cons]
        simp only [hmore, List.length_cons, Nat.add_right_cancel_iff]
        rfl

end Run

/-! ## An echo -/

/-- The body of a request is ten bytes and the text: the tag, the presence byte, and the length of
the text as eight bytes are in front of it. -/
theorem length_encode_request (value : String) :
    (request value).encode.length = 10 + value.utf8ByteSize := by
  have hbody : (request value).encode = 7 :: 1 :: Field.encodeText value := by
    simp [request, Message.encode, Message.put, Message.push, Field.ofValue, Field.encode,
      Field.kind, Kind.tag, Field.payload, Field.encodeNullable]
  rw [hbody, List.length_cons, List.length_cons, Field.length_encodeText]
  omega

theorem decode_request {value : String} {max : UInt32}
    (h : 10 + value.utf8ByteSize ≤ max.toNat) :
    Message.decode (request value).encode = .ok (request value) := by
  have hfits : (request value).Fits := by
    refine Message.fits_of_length_lt ?_
    rw [length_encode_request]
    exact Nat.lt_of_le_of_lt h (Nat.lt_trans max.toNat_lt (by decide))
  refine Message.decode_eq_ok.mpr ⟨rfl, fun field hm => ⟨hfits field hm, ?_⟩, rfl⟩
  obtain rfl : field = .string (some value) := by
    simpa [request, Message.put, Message.push, Field.ofValue] using hm
  trivial

theorem printed_request (value : String) : printed (.ok (request value)) = [value] := rfl

theorem isWhole_request (value : String) : isWhole (.ok (request value)) = true := rfl

section Echo

variable {σ : Type} {handler : Handler σ} {max serverMax : UInt32}

/-- The values in front of the first one whose request is above the limit. -/
def echoed (limit : Nat) (values : List String) : List String :=
  values.takeWhile fun value => 10 + value.utf8ByteSize ≤ limit

theorem echoed_cons_of_le {limit : Nat} {value : String} (h : 10 + value.utf8ByteSize ≤ limit)
    (values : List String) : echoed limit (value :: values) = value :: echoed limit values :=
  List.takeWhile_cons_of_pos (decide_eq_true h)

theorem echoed_cons_of_lt {limit : Nat} {value : String} (h : limit < 10 + value.utf8ByteSize)
    (values : List String) : echoed limit (value :: values) = [] :=
  List.takeWhile_cons_of_neg (by simpa using h)

/-- What the handler keeps after it has been handed these values. -/
def kept (handler : Handler σ) (state : σ) (values : List String) : σ :=
  values.foldl (fun state value => (handler state (request value)).2) state

/-- **The sends at an echo**: the values below both limits come back one after the other, and the
first one above fails. -/
theorem sendAll_echo (hc : handler.Computes .response) (state : σ) (values : List String) :
    let good := echoed (min max.toNat serverMax.toNat) values
    let send := Exchange.send handler
    let start := Exchange.ready max serverMax state
    (∃ rest, Exchange.sendAll send start (values.map request) =
        good.map (fun value => .ok (request value)) ++ rest ∧
      ∀ result ∈ rest.head?, ∃ error, result = .error error) ∧
      (after send start ((values.take (good.length + 1)).map request)).state =
        kept handler state good := by
  induction values generalizing state with
  | nil => exact ⟨⟨[], rfl, nofun⟩, rfl⟩
  | cons value values ih =>
    intro good send start
    have hlength := length_encode_request value
    by_cases hfits : 10 + value.utf8ByteSize ≤ min max.toNat serverMax.toNat
    · obtain ⟨hmax, hserver⟩ := Nat.le_min.mp hfits
      have hsend : send start (request value) =
          (.ok (request value), .ready max serverMax (handler state (request value)).2) :=
        Exchange.send_of_fits hc (decode_request hmax) (hlength ▸ hmax) (hlength ▸ hserver) state
      have hgood : good = value :: echoed (min max.toNat serverMax.toNat) values :=
        echoed_cons_of_le hfits values
      obtain ⟨⟨rest, hrest, herror⟩, hstate⟩ := ih (handler state (request value)).2
      refine ⟨⟨rest, ?_, herror⟩, ?_⟩
      · rw [hgood, List.map_cons, Exchange.sendAll, hsend, List.map_cons, List.cons_append, ← hrest]
      · rw [hgood, List.length_cons, List.take_succ_cons, List.map_cons, after, List.foldl_cons,
          hsend]
        exact hstate
    · have hlarge : max.toNat < (request value).encode.length ∨
          serverMax.toNat < (request value).encode.length := by omega
      obtain ⟨error, next, hsend, hstate⟩ := Exchange.send_of_exceeds handler hlarge state
      have hsend : send start (request value) = (.error error, next) := hsend
      have hgood : good = [] := echoed_cons_of_lt (Nat.lt_of_not_le hfits) values
      have hresults : Exchange.sendAll send start ((value :: values).map request) =
          .error error :: Exchange.sendAll send next (values.map request) := by
        rw [List.map_cons, Exchange.sendAll, hsend]
      refine ⟨⟨_, by rw [hgood]; exact hresults, ?_⟩, ?_⟩
      · rintro result ⟨⟩
        exact ⟨error, rfl⟩
      · rw [hgood, List.length_nil, List.take_succ_cons, List.take_zero, List.map_singleton, after,
          List.foldl_cons, hsend]
        exact hstate

theorem printed_of_echo (good : List String) {rest : List (Except TransportError Message)}
    (h : ∀ result ∈ rest.head?, ∃ error, result = .error error) :
    let results := good.map (fun value => .ok (request value)) ++ rest
    (results.takeWhile isWhole).length = good.length ∧
      (results.take (good.length + 1)).flatMap printed = good := by
  intro results
  have hgood : ∀ result ∈ good.map (fun value => Except.ok (request value)),
      isWhole result = true := by
    intro result hm
    obtain ⟨value, -, rfl⟩ := List.mem_map.mp hm
    exact isWhole_request value
  have hprinted : (good.map (fun value => Except.ok (request value))).flatMap printed = good := by
    simp only [List.flatMap_map, printed_request, List.flatMap_singleton']
  have htake : results.take (good.length + 1) =
      good.map (fun value => .ok (request value)) ++ rest.take 1 := by
    have hlength : good.length = (good.map fun value =>
        (Except.ok (request value) : Except TransportError Message)).length := by
      rw [List.length_map]
    rw [hlength, List.take_length_add_append]
  rw [htake, List.flatMap_append, hprinted, List.takeWhile_append_of_pos hgood]
  cases rest with
  | nil => simp
  | cons result rest =>
    obtain ⟨error, rfl⟩ := h result rfl
    simp [isWhole, printed]

/-- **The loop at an echo** prints the values below both limits, up to the first one above. -/
theorem run_echo (hc : handler.Computes .response) (state : σ) (values : List String) :
    let good := echoed (min max.toNat serverMax.toNat) values
    let send := Exchange.send handler
    let start := Exchange.ready max serverMax state
    run send start values =
      ({ lines := good, succeeded := good.length = values.length },
        after send start ((values.take (good.length + 1)).map request)) := by
  intro good send start
  obtain ⟨rest, hresults, herror⟩ : ∃ rest, Exchange.sendAll send start (values.map request) =
      good.map (fun value => .ok (request value)) ++ rest ∧
        ∀ result ∈ rest.head?, ∃ error, result = .error error := (sendAll_echo hc state values).1
  obtain ⟨hwhole, hlines⟩ := printed_of_echo good herror
  have hrun := run_eq send start values
  simp only at hrun
  rw [hresults, hwhole, hlines] at hrun
  exact hrun

end Echo

/-! ## The program -/

/-- A program that connects ends well just if its loop does and the connection is given up. -/
theorem program_of_connect {κ : Type} {connect : Invocation → Except TransportError κ}
    {arguments : List String} {invocation : Invocation} {connection : κ}
    (hasks : Asks arguments invocation) (hconnect : connect invocation = .ok connection)
    (send : κ → Message → Except TransportError Message × κ)
    (disconnect : κ → Except TransportError Unit) :
    program connect send disconnect arguments =
      let (output, last) := run send connection invocation.values
      { code := if output.succeeded = true ∧ (disconnect last).isOk = true then 0 else 1
        printed := output.text } := by
  obtain ⟨read, hread, hinvocation⟩ := hasks
  simp only [program, hread, hinvocation, hconnect, Bool.and_eq_true]
  split
  · rfl
  · rfl

theorem Asks.readTimeout {arguments : List String} {invocation : Invocation}
    (h : Asks arguments invocation) : invocation.config.readTimeout = none := by
  obtain ⟨read, -, hinvocation⟩ := h
  unfold Invocation.ofArguments? at hinvocation
  split at hinvocation
  · split at hinvocation
    · cases hinvocation
    · obtain ⟨address, -, hinvocation⟩ := Option.bind_eq_some_iff.mp hinvocation
      obtain rfl := Option.some.inj hinvocation
      dsimp only
      split
      · rfl
      · rfl
  · cases hinvocation

theorem Asks.connect {σ : Type} {arguments : List String} {invocation : Invocation}
    {serverConfig : Config} (h : Asks arguments invocation)
    (hvalid : invocation.config.validate = .ok ()) (state : σ) :
    Exchange.connect ⟨true⟩ true invocation.config serverConfig state =
      .ok (.start invocation.config serverConfig state) := by
  rw [Config.connect_of_validate hvalid, Config.setUp_of_validate hvalid, h.readTimeout,
    if_neg nofun]
  rfl

/-- **What the program prints.** Any texts can be its values, with any limit. Over any connection it
prints the leading strings of each response, up to the first thing that goes wrong, and sends
nothing behind that. At an echo it prints the values up to the first that is above one of the
limits. -/
theorem prints_responses :
    (∀ {text : String} {address : Address}, Address.parse? text = some address →
      ∀ (size : UInt32) {values : List String}, values ≠ [] →
        ∃ number, Asks (text :: "--max-frame-size" :: number :: "--" :: values)
          { address, values, config := { maxFrameSize := size } }) ∧
    (∀ {κ : Type} (connect : Invocation → Except TransportError κ)
      (send : κ → Message → Except TransportError Message × κ)
      (disconnect : κ → Except TransportError Unit) {arguments : List String}
      {invocation : Invocation} {connection : κ}, Asks arguments invocation →
      connect invocation = .ok connection →
      let results := Exchange.sendAll send connection (invocation.values.map request)
      let whole := (results.takeWhile isWhole).length
      let last := after send connection ((invocation.values.take (whole + 1)).map request)
      (run send connection invocation.values).2 = last ∧
      program connect send disconnect arguments = {
        code := if whole = invocation.values.length ∧ (disconnect last).isOk = true then 0 else 1
        printed := Output.text { lines := (results.take (whole + 1)).flatMap printed } }) ∧
    ∀ {σ : Type} {handler : Handler σ} {arguments : List String} {invocation : Invocation}
      {serverConfig : Config}, handler.Computes .response → Asks arguments invocation →
      invocation.config.validate = .ok () → Transport.setUp serverConfig = .ok () → ∀ state : σ,
      let good := echoed
        (min invocation.config.maxFrameSize.toNat serverConfig.maxFrameSize.toNat)
        invocation.values
      let send := Exchange.send handler
      let start := Exchange.start invocation.config serverConfig state
      let last := after send start ((invocation.values.take (good.length + 1)).map request)
      (run send start invocation.values).2 = last ∧ last.state = kept handler state good ∧
      program
        (fun invocation =>
          Exchange.connect ⟨true⟩ true invocation.config serverConfig state) send
        (fun exchange => exchange.disconnect.1) arguments = {
        code := if good.length = invocation.values.length then 0 else 1
        printed := Output.text { lines := good } } := by
  refine ⟨asks_values, ?_, ?_⟩
  · intro κ connect send disconnect arguments invocation connection hasks hconnect results whole
      last
    have hrun : run send connection invocation.values =
        ({ lines := (results.take (whole + 1)).flatMap printed
           succeeded := whole = invocation.values.length }, last) :=
      run_eq send connection invocation.values
    refine ⟨by rw [hrun], ?_⟩
    rw [program_of_connect hasks hconnect, hrun]
    simp only [decide_eq_true_eq]
    rfl
  · intro σ handler arguments invocation serverConfig hc hasks hvalid hsetup state good send start
      last
    have hstart : start = .ready invocation.config.maxFrameSize serverConfig.maxFrameSize state :=
      Exchange.start_eq_ready hsetup state
    have hrun : run send start invocation.values =
        ({ lines := good, succeeded := good.length = invocation.values.length }, last) := by
      simp only [last, hstart]
      exact run_echo hc state invocation.values
    refine ⟨by rw [hrun], ?_, ?_⟩
    · simp only [last, hstart]
      exact (sendAll_echo hc state invocation.values).2
    · rw [program_of_connect hasks (hasks.connect hvalid state), hrun]
      simp only [decide_eq_true_eq, Exchange.isOk_disconnect, and_true]
      rfl

/-- Of three values the second is above the limit, and of a response only the null is printed in
front of a number. -/
theorem prints_responses_stops :
    ∃ number,
      let arguments := "127.0.0.1:80" :: "--max-frame-size" :: number :: "--" :: ["a", "bcd", "e"]
      let response := (({} : Message).put .string none).put .int 1
      program (fun invocation => Exchange.connect ⟨true⟩ true invocation.config {} ())
          (Exchange.send .echo) (fun exchange => exchange.disconnect.1) arguments =
        { code := 1, printed := "a\n" } ∧
      program (fun _ => .ok ()) (fun _ _ => (.ok response, ())) .ok arguments =
        { code := 1, printed := "<null>\n" } := by
  have haddress : Address.parse? "127.0.0.1:80" = some ⟨.ipv4 127 0 0 1, 80⟩ := by decide +kernel
  have hvalues : ["a", "bcd", "e"] ≠ [] := by decide
  obtain ⟨number, hasks⟩ := prints_responses.1 haddress 12 hvalues
  have hecho : Handler.echo.Computes .response := fun _ _ => rfl
  refine ⟨number, ?_, ?_⟩
  · refine (prints_responses.2.2 hecho hasks rfl rfl ()).2.2.trans ?_
    decide +kernel
  · refine (prints_responses.2.1 (fun _ => .ok ()) _ _ hasks rfl).2.trans ?_
    decide +kernel

end CommandLine.Client

end Parley
