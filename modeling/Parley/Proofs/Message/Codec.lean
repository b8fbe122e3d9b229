import Parley.Message.Codec
import Parley.Proofs.Field.Reads

/-!
# Bodies of messages

A body is read field by field, so what `Field.decode_eq_ok` says of one field carries over
to all of them. The calendar adds the only refusal that is not about the format.

**Theorem (`body_round_trip`).** The bytes of a message are read back as its fields, with
the cursor at the first, unless it holds a timestamp that the calendar does not have; then
the first of these is reported. Writing is total: a list of bytes takes all that is written
to it.

**Theorem (`body_canonical`).** A body that is read is written again byte for byte. So the
bodies that are read are exactly those that well-formed fields are written as, each of them
in one way.
-/

namespace Parley

/-- The calendar has this count of milliseconds. -/
def Instant.InCalendar (millis : Int) : Prop :=
  -8334601228800000 ≤ millis ∧ millis ≤ 8210266876799999

instance (millis : Int) : Decidable (Instant.InCalendar millis) :=
  inferInstanceAs (Decidable (_ ∧ _))

namespace Field

/-- The calendar has the timestamp, if the field holds one. -/
def InCalendar : Field → Prop
  | timestamp value => ∀ millis ∈ value, Instant.InCalendar millis.toInt
  | _ => True

/-- The field fits the format and the calendar. -/
def WellFormed (field : Field) : Prop := field.Fits ∧ field.InCalendar

end Field

namespace Message

/-- All lengths in the message fit eight bytes. -/
def Fits (message : Message) : Prop := ∀ field ∈ message.fields, field.Fits

instance (message : Message) : Decidable message.Fits :=
  inferInstanceAs (Decidable (∀ field ∈ message.fields, field.Fits))

/-- The first timestamp that the calendar does not have. -/
def firstStray? : List Field → Option Int64
  | [] => none
  | .timestamp (some millis) :: rest =>
    if Instant.InCalendar millis.toInt then firstStray? rest else some millis
  | _ :: rest => firstStray? rest

/-! ## One field after the other -/

theorem strayTimestamp?_timestamp (millis : Int64) :
    strayTimestamp? (.timestamp (some millis)) =
      if Instant.InCalendar millis.toInt then none else some millis := by
  rw [strayTimestamp?]
  exact if_congr (Instant.isSome_ofMillis? millis.toInt) rfl rfl

theorem strayTimestamp?_eq_none {field : Field} :
    strayTimestamp? field = none ↔ field.InCalendar := by
  match field with
  | .timestamp (some millis) =>
    rw [strayTimestamp?_timestamp]
    simp [Field.InCalendar]
  | .timestamp none => exact iff_of_true rfl nofun
  | .bool _ | .byte _ | .short _ | .int _ | .long _ | .float _ | .double _ | .string _
  | .stringList _ | .stringArray _ => exact iff_of_true rfl trivial

theorem firstStray?_cons (field : Field) (rest : List Field) :
    firstStray? (field :: rest) = (strayTimestamp? field).or (firstStray? rest) := by
  match field with
  | .timestamp (some millis) =>
    rw [firstStray?, strayTimestamp?_timestamp]
    split <;> rfl
  | .timestamp none => rfl
  | .bool _ | .byte _ | .short _ | .int _ | .long _ | .float _ | .double _ | .string _
  | .stringList _ | .stringArray _ => rfl

theorem firstStray?_eq_none {fields : List Field} :
    firstStray? fields = none ↔ ∀ field ∈ fields, field.InCalendar := by
  induction fields with
  | nil => simp [firstStray?]
  | cons field rest ih =>
    rw [firstStray?_cons, Option.or_eq_none_iff, strayTimestamp?_eq_none, ih,
      List.forall_mem_cons]

@[simp] theorem decodeAfter_nil (done : Array Field) : decodeAfter done [] = .ok done := by
  rw [decodeAfter]
  rfl

theorem decodeAfter_encode {done : Array Field} {field : Field} {rest : List UInt8}
    (hf : field.Fits) :
    decodeAfter done (field.encode ++ rest) =
      match strayTimestamp? field with
      | some millis => .error (.invalidTimestamp millis)
      | none => decodeAfter (done.push field) rest := by
  have hd : Field.decode (field.encode ++ rest) = .ok (field, rest) :=
    Field.decode_eq_ok.mpr ⟨hf, rfl⟩
  rw [decodeAfter]
  have hne : (field.encode ++ rest).isEmpty = false := rfl
  rw [hne]
  simp only [Bool.false_eq_true, if_false]
  split
  · next h => rw [hd] at h; cases h
  · next h => rw [hd] at h; cases h; rfl

/-- What is written is read, up to the first timestamp that the calendar does not have. -/
theorem decodeAfter_flatMap_encode {fields : List Field} (hf : ∀ field ∈ fields, field.Fits)
    (done : Array Field) :
    decodeAfter done (fields.flatMap Field.encode) =
      match firstStray? fields with
      | some millis => .error (.invalidTimestamp millis)
      | none => .ok (done ++ fields.toArray) := by
  induction fields generalizing done with
  | nil => simp [firstStray?]
  | cons field rest ih =>
    obtain ⟨hfield, hrest⟩ := List.forall_mem_cons.mp hf
    rw [List.flatMap_cons, decodeAfter_encode hfield, firstStray?_cons]
    cases strayTimestamp? field with
    | some millis => rfl
    | none =>
      simp only [Option.none_or, ih hrest]
      cases firstStray? rest <;> simp

/-- What is read was written: the induction is along the fields that the decoder takes off
the body. -/
theorem flatMap_encode_of_decodeAfter {done fields : Array Field} {body : List UInt8}
    (h : decodeAfter done body = .ok fields) :
    ∃ more : List Field, (∀ field ∈ more, field.WellFormed) ∧
      body = more.flatMap Field.encode ∧ fields.toList = done.toList ++ more := by
  fun_induction decodeAfter done body with
  | case1 done body hempty =>
    cases h
    exact ⟨[], nofun, List.isEmpty_iff.mp hempty, (List.append_nil _).symm⟩
  | case2 => cases h
  | case3 => cases h
  | case4 done body _ field rest hd hstray ih =>
    obtain ⟨more, hmore, rfl, hall⟩ := ih h
    obtain ⟨hfits, rfl⟩ := Field.decode_eq_ok.mp hd
    have hcal : field.InCalendar := strayTimestamp?_eq_none.mp hstray
    refine ⟨field :: more, List.forall_mem_cons.mpr ⟨⟨hfits, hcal⟩, hmore⟩, ?_, ?_⟩
    · rw [List.flatMap_cons]
    · rw [hall, Array.toList_push, List.append_assoc, List.singleton_append]

/-! ## Messages -/

/-- A message is read off a body exactly if nothing of it was read before, its fields are
well-formed, and the body is what they are written as. -/
theorem decode_eq_ok {body : List UInt8} {message : Message} :
    decode body = .ok message ↔
      message.cursor = 0 ∧ (∀ field ∈ message.fields, field.WellFormed) ∧
        message.encode = body := by
  constructor
  · intro h
    rw [decode] at h
    cases hd : decodeAfter #[] body with
    | error error => rw [hd] at h; cases h
    | ok fields =>
      rw [hd] at h
      cases h
      obtain ⟨more, hmore, rfl, hall⟩ := flatMap_encode_of_decodeAfter hd
      rw [List.nil_append] at hall
      subst hall
      exact ⟨rfl, fun field hm => hmore field (Array.mem_toList_iff.mpr hm), rfl⟩
  · intro hwritten
    obtain ⟨hcursor, hwf, rfl⟩ := hwritten
    have hfits : ∀ field ∈ message.fields.toList, field.Fits :=
      fun field hm => (hwf field (Array.mem_toList_iff.mp hm)).1
    have hcal : firstStray? message.fields.toList = none :=
      firstStray?_eq_none.mpr fun field hm => (hwf field (Array.mem_toList_iff.mp hm)).2
    rw [decode, encode, decodeAfter_flatMap_encode hfits, hcal]
    obtain ⟨fields, cursor⟩ := message
    subst hcursor
    simp [Except.map]

/-- The lengths of strings that take up less than eight bytes can number fit eight bytes. -/
theorem textsFit_of_length_lt {texts : List String}
    (h : (Field.encodeTexts texts).length < UInt64.size) : Field.TextsFit texts := by
  rw [Field.encodeTexts, List.length_append] at h
  have hcount := Decoder.length_flatMap_encodeText texts
  refine ⟨by omega, fun text hm => ?_⟩
  have hle : (Field.encodeText text).length ≤ (texts.flatMap Field.encodeText).length :=
    (List.sublist_flatten_of_mem (List.mem_map_of_mem hm)).length_le
  rw [Field.length_encodeText] at hle
  show text.utf8ByteSize < UInt64.size
  omega

theorem fits_of_length_lt {message : Message} (h : message.encode.length < UInt64.size) :
    message.Fits := by
  intro field hm
  have hle : field.encode.length ≤ message.encode.length :=
    (List.sublist_flatten_of_mem
      (List.mem_map_of_mem (Array.mem_toList_iff.mpr hm))).length_le
  have hpayload : field.payload.length < UInt64.size := by
    rw [Field.encode, List.length_cons] at hle
    omega
  cases field with
  | string value =>
    intro text htext
    cases htext
    simp only [Field.payload, Field.encodeNullable, List.length_cons,
      Field.length_encodeText] at hpayload
    show text.utf8ByteSize < UInt64.size
    omega
  | stringList value | stringArray value =>
    intro texts htexts
    cases htexts
    simp only [Field.payload, Field.encodeNullable, List.length_cons] at hpayload
    exact textsFit_of_length_lt (by omega)
  | bool | byte | short | int | long | float | double | timestamp => trivial

theorem eq_of_decode_encode {message received : Message} (hf : message.Fits)
    (h : decode message.encode = .ok received) : received = { fields := message.fields } := by
  have hfits : ∀ field ∈ message.fields.toList, field.Fits :=
    fun field hm => hf field (Array.mem_toList_iff.mp hm)
  rw [decode, encode, decodeAfter_flatMap_encode hfits] at h
  cases hs : firstStray? message.fields.toList with
  | some millis => rw [hs] at h; cases h
  | none =>
    rw [hs] at h
    cases h
    simp

/-- **The round trip.** The body of a message depends on its fields alone. It is read back as
the same fields, not yet read from, or refused for the first timestamp that the calendar
does not have. -/
theorem body_round_trip (message : Message) (h : message.Fits) :
    (∀ other : Message, other.fields = message.fields → other.encode = message.encode) ∧
      decode message.encode =
        match firstStray? message.fields.toList with
        | none => .ok { fields := message.fields, cursor := 0 }
        | some millis => .error (.invalidTimestamp millis) := by
  have hfits : ∀ field ∈ message.fields.toList, field.Fits :=
    fun field hm => h field (Array.mem_toList_iff.mp hm)
  constructor
  · intro other hother
    rw [encode, encode, hother]
  · rw [decode, encode, decodeAfter_flatMap_encode hfits]
    cases firstStray? message.fields.toList <;> simp [Except.map]

/-- A NaN with a payload, a negative zero, null and empty values, and the last millisecond of
the calendar are read back; of two timestamps outside it, the first is reported. -/
theorem body_round_trip_edges :
    let kept : Message := {
      fields := #[.float ⟨0xffa00001⟩, .double ⟨0x8000000000000000⟩, .string none,
        .string (some ""), .stringList (some []), .stringArray (some ["é", ""]),
        .timestamp (some 8210266876799999)]
      cursor := 3 }
    let stray : Message := {
      fields := #[.timestamp (some 0), .timestamp (some 8210266876800000),
        .timestamp (some (-8334601228800001))] }
    kept.Fits ∧ decode kept.encode = .ok { fields := kept.fields } ∧
      stray.Fits ∧ decode stray.encode = .error (.invalidTimestamp 8210266876800000) := by
  intro kept stray
  have hkept : kept.Fits := by decide
  have hstray : stray.Fits := by decide
  exact ⟨hkept, (body_round_trip kept hkept).2, hstray, (body_round_trip stray hstray).2⟩

/-- **The format is canonical.** What is read is written again as the same bytes; the bodies
that are read are the concatenations of well-formed fields, each of one sequence of fields
only; and different bodies hold different fields. -/
theorem body_canonical (body : List UInt8) :
    (∀ message, decode body = .ok message → message.encode = body) ∧
      ((∃ message, decode body = .ok message) ↔
        ∃ fields : List Field, (∀ field ∈ fields, field.WellFormed) ∧
          fields.flatMap Field.encode = body) ∧
      ((∃ message, decode body = .ok message) →
        ∃! fields : List Field, (∀ field ∈ fields, field.WellFormed) ∧
          fields.flatMap Field.encode = body) ∧
      ∀ other message message', decode body = .ok message → decode other = .ok message' →
        message.fields = message'.fields → body = other := by
  have hread : ∀ fields : List Field, (∀ field ∈ fields, field.WellFormed) →
      fields.flatMap Field.encode = body → decode body = .ok { fields := fields.toArray } := by
    intro fields hwf hbody
    refine decode_eq_ok.mpr ⟨rfl, fun field hm => hwf field (List.mem_toArray.mp hm), hbody⟩
  have hwritten : ∀ message, decode body = .ok message →
      (∀ field ∈ message.fields.toList, field.WellFormed) ∧
        message.fields.toList.flatMap Field.encode = body := by
    intro message h
    obtain ⟨-, hwf, hbody⟩ := decode_eq_ok.mp h
    exact ⟨fun field hm => hwf field (Array.mem_toList_iff.mp hm), hbody⟩
  refine ⟨fun message h => (hwritten message h).2, ⟨?_, ?_⟩, ?_, ?_⟩
  · intro hread
    obtain ⟨message, h⟩ := hread
    exact ⟨message.fields.toList, hwritten message h⟩
  · intro hformed
    obtain ⟨fields, hwf, hbody⟩ := hformed
    exact ⟨_, hread fields hwf hbody⟩
  · intro hread
    obtain ⟨message, h⟩ := hread
    refine ⟨message.fields.toList, hwritten message h, ?_⟩
    intro fields hformed
    obtain ⟨hwf, hbody⟩ := hformed
    -- Both sequences are what the decoder gives for the same body.
    have hsame := (hread fields hwf hbody).symm.trans h
    cases hsame
    rfl
  · intro other message message' h h' hfields
    obtain ⟨-, -, hbody⟩ := decode_eq_ok.mp h
    obtain ⟨-, -, hother⟩ := decode_eq_ok.mp h'
    rw [← hbody, ← hother, encode, encode, hfields]

/-- A boolean and a null string have one body, and that body holds no other fields. -/
theorem body_canonical_two_fields :
    let body : List UInt8 := [0, 1, 7, 0]
    let message : Message := { fields := #[.bool true, .string none] }
    decode body = .ok message ∧ message.encode = body ∧
      (∃ fields : List Field, (∀ field ∈ fields, field.WellFormed) ∧
        fields.flatMap Field.encode = body) ∧
      (∃! fields : List Field, (∀ field ∈ fields, field.WellFormed) ∧
        fields.flatMap Field.encode = body) ∧
      ∀ other message', decode other = .ok message' → message.fields = message'.fields →
        body = other := by
  intro body message
  have hread : decode body = .ok message := by cbv
  obtain ⟨hwritten, hformed, hunique, hsame⟩ := body_canonical body
  exact ⟨hread, hwritten message hread, hformed.mp ⟨message, hread⟩, hunique ⟨message, hread⟩,
    fun other message' hother => hsame other message message' hread hother⟩

end Message

end Parley
