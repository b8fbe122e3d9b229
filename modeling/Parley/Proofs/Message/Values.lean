import Parley.Proofs.Message.Codec

/-!
# Values put and got

Gets that name the kinds of the puts, in the same order, bring the values back, off the message
itself and off what its body is read as. A timestamp is held as a count of milliseconds, so
what is below a millisecond is dropped.

**Leap seconds.** The count has no place for a leap second: it counts on into the second after
it. A timestamp in a leap second comes back as an instant of that second, and at the end of
the calendar, where there is no second after it, not at all.

**Theorem (`values_kept_iff`).** All values come back, truncated to the millisecond and not
changed otherwise, exactly if no timestamp among them lies in a leap second. The induction is
along the puts; what has been got so far is as many fields as the cursor counts.
-/

namespace Parley

namespace Instant

theorem valid_truncate (t : Instant) : Valid t.seconds (t.nanos / 1000000 * 1000000) := by
  have h := t.valid
  simp only [Valid] at h ⊢
  omega

/-- The instant without what is below a millisecond. -/
def truncate (t : Instant) : Instant where
  seconds := t.seconds
  nanos := t.nanos / 1000000 * 1000000
  valid := t.valid_truncate

/-- The instant lies in a leap second. -/
def IsLeap (t : Instant) : Prop := 1000000000 ≤ t.nanos

instance (t : Instant) : Decidable t.IsLeap := inferInstanceAs (Decidable (_ ≤ _))

theorem toInt_ofInt_millis (t : Instant) : (Int64.ofInt t.millis).toInt = t.millis := by
  have h := t.millis_bounds
  exact Int64.toInt_ofInt_of_le (by simp; omega) (by simp; omega)

/-- A count of milliseconds names the truncated instant again, but never one of a leap second. -/
theorem ofMillis?_millis_iff (t : Instant) :
    ofMillis? t.millis = some t.truncate ↔ ¬t.IsLeap := by
  have h := t.valid
  simp only [Valid] at h
  have hsecond : t.millis / 1000 = t.seconds + (t.nanos / 1000000000 : Nat) := by
    simp only [millis]
    omega
  have hnanos : (t.millis % 1000).toNat * 1000000 < 1000000000 := by omega
  constructor
  · intro heq hleap
    unfold ofMillis? ofSeconds? at heq
    split at heq
    · have hsame := congrArg Instant.nanos (Option.some.inj heq)
      simp only [IsLeap] at hleap
      simp only [truncate] at hsame
      omega
    · cases heq
  · intro hleap
    simp only [IsLeap] at hleap
    unfold ofMillis? ofSeconds?
    rw [dif_pos ⟨⟨by omega, by omega⟩, Or.inl hnanos⟩]
    simp only [truncate, Option.some.injEq, Instant.mk.injEq]
    simp only [millis]
    omega

theorem inCalendar_millis {t : Instant} (h : ¬t.IsLeap) : InCalendar t.millis := by
  refine (isSome_ofMillis? t.millis).mp ?_
  rw [(ofMillis?_millis_iff t).mpr h]
  rfl

end Instant

/-! ## One value -/

namespace Kind

/-- What is got of a value that was put. -/
def recalled : (kind : Kind) → kind.Value → Except MessageError kind.Value
  | .timestamp, value => Field.instant (value.map fun t => .ofInt t.millis)
  | _, value => .ok value

/-- The value without what is below a millisecond. -/
def truncate : (kind : Kind) → kind.Value → kind.Value
  | .timestamp, value => value.map Instant.truncate
  | _, value => value

/-- The value is a timestamp in a leap second. -/
def IsLeap : (kind : Kind) → kind.Value → Prop
  | .timestamp, value => ∃ t ∈ value, t.IsLeap
  | _, _ => False

theorem recalled_eq_ok_iff (kind : Kind) (value : kind.Value) :
    kind.recalled value = .ok (kind.truncate value) ↔ ¬kind.IsLeap value := by
  cases kind with
  | timestamp =>
    cases value with
    | none => exact iff_of_true rfl (by simp [IsLeap])
    | some t =>
      have hleap : Kind.timestamp.IsLeap (some t) ↔ t.IsLeap := by simp [IsLeap]
      rw [hleap, ← Instant.ofMillis?_millis_iff]
      simp only [recalled, truncate, Option.map_some, Field.instant, t.toInt_ofInt_millis]
      cases Instant.ofMillis? t.millis <;> simp
  | _ => exact iff_of_true rfl (by simp [IsLeap])

end Kind

theorem Field.value?_ofValue (kind : Kind) (value : kind.Value) :
    (Field.ofValue kind value).value? kind = some (kind.recalled value) := by
  cases kind <;> rfl

theorem Field.inCalendar_ofValue {kind : Kind} {value : kind.Value} (h : ¬kind.IsLeap value) :
    (Field.ofValue kind value).InCalendar := by
  cases kind with
  | timestamp =>
    cases value with
    | none => exact nofun
    | some t =>
      have hcal : Instant.InCalendar t.millis :=
        Instant.inCalendar_millis fun hleap => h ⟨t, rfl, hleap⟩
      rw [← t.toInt_ofInt_millis] at hcal
      simpa [Field.ofValue, Field.InCalendar] using hcal
  | _ => trivial

/-! ## One value after the other -/

namespace Message

/-- A value with its kind. -/
abbrev Entry := (kind : Kind) × kind.Value

/-- The field that holds the value. -/
def Entry.field (entry : Entry) : Field := .ofValue entry.1 entry.2

/-- Puts one value after the other. -/
def puts (message : Message) (entries : List Entry) : Message :=
  entries.foldl (fun message entry => message.put entry.1 entry.2) message

/-- The results of one get after the other, whether or not they succeed. -/
def gets : Message → List Kind → List ((kind : Kind) × Except MessageError kind.Value)
  | _, [] => []
  | message, kind :: kinds => ⟨kind, (message.get kind).1⟩ :: (message.get kind).2.gets kinds

theorem puts_eq (message : Message) (entries : List Entry) :
    message.puts entries =
      { message with fields := message.fields ++ (entries.map Entry.field).toArray } := by
  induction entries generalizing message with
  | nil => simp [puts]
  | cons entry rest ih =>
    have hstep : message.puts (entry :: rest) = (message.put entry.1 entry.2).puts rest := rfl
    rw [hstep, ih]
    simp [put, push, Entry.field]

theorem get_of_field {message : Message} {entry : Entry}
    (h : message.fields[message.cursor]? = some entry.field) :
    message.get entry.1 =
      (entry.1.recalled entry.2, { message with cursor := message.cursor + 1 }) := by
  rw [get, h]
  simp only [Entry.field, Field.value?_ofValue]

theorem gets_of_fields {message : Message} {entries : List Entry}
    (h : message.fields.toList.drop message.cursor = entries.map Entry.field) :
    message.gets (entries.map Sigma.fst) = entries.map fun e => ⟨e.1, e.1.recalled e.2⟩ := by
  induction entries generalizing message with
  | nil => rfl
  | cons entry rest ih =>
    have hfirst : message.fields[message.cursor]? = some entry.field := by
      rw [← Array.getElem?_toList, ← List.head?_drop, h]
      rfl
    have hrest : message.fields.toList.drop (message.cursor + 1) = rest.map Entry.field := by
      rw [← List.drop_drop, h]
      rfl
    rw [List.map_cons, gets, get_of_field hfirst, List.map_cons, ih hrest]

/-- **What was put is got.** Off the message itself, and off the message that its body is read
as, every get succeeds and the values are those put, without what is below a millisecond,
exactly if none of them is a timestamp in a leap second. -/
theorem values_kept_iff (entries : List Entry) (hf : (({} : Message).puts entries).Fits) :
    let message := ({} : Message).puts entries
    let kept : List ((kind : Kind) × Except MessageError kind.Value) :=
      entries.map fun entry => ⟨entry.1, .ok (entry.1.truncate entry.2)⟩
    (message.gets (entries.map Sigma.fst) = kept ↔
        ∀ entry ∈ entries, ¬entry.1.IsLeap entry.2) ∧
      ((∃ received, decode message.encode = .ok received ∧
          received.gets (entries.map Sigma.fst) = kept) ↔
        ∀ entry ∈ entries, ¬entry.1.IsLeap entry.2) := by
  intro message kept
  have hfields : message.fields = (entries.map Entry.field).toArray := by
    simp [message, puts_eq]
  have hcursor : message.cursor = 0 := by simp [message, puts_eq]
  have hgets : message.gets (entries.map Sigma.fst) = kept ↔
      ∀ entry ∈ entries, ¬entry.1.IsLeap entry.2 := by
    rw [gets_of_fields (by rw [hcursor, hfields]; rfl), List.map_inj_left]
    refine forall₂_congr fun entry _ => ?_
    rw [← Kind.recalled_eq_ok_iff]
    simp
  refine ⟨hgets, ?_, ?_⟩
  · intro hread
    obtain ⟨received, hd, hr⟩ := hread
    have hsame : received = message :=
      (eq_of_decode_encode hf hd).trans (congrArg (Message.mk message.fields) hcursor.symm)
    exact hgets.mp (hsame ▸ hr)
  · intro hleap
    refine ⟨message, decode_eq_ok.mpr ⟨hcursor, fun field hm => ⟨hf field hm, ?_⟩, rfl⟩,
      hgets.mpr hleap⟩
    rw [hfields] at hm
    obtain ⟨entry, he, rfl⟩ := List.mem_map.mp (List.mem_toArray.mp hm)
    exact Field.inCalendar_ofValue (hleap entry he)

/-- A fraction of a second before the epoch is truncated downwards and an empty list stays
apart from none; the truncated values are got off the message and off its body. -/
theorem values_kept_before_epoch :
    let entries : List Entry := [⟨.timestamp, some ⟨-1, 999999999, by decide⟩⟩,
      ⟨.stringList, some []⟩, ⟨.string, none⟩]
    let kept : List ((kind : Kind) × Except MessageError kind.Value) :=
      [⟨.timestamp, .ok (some ⟨-1, 999000000, by decide⟩)⟩, ⟨.stringList, .ok (some [])⟩,
        ⟨.string, .ok none⟩]
    (({} : Message).puts entries).Fits ∧
      (({} : Message).puts entries).gets [.timestamp, .stringList, .string] = kept ∧
      ∃ received, decode (({} : Message).puts entries).encode = .ok received ∧
        received.gets [.timestamp, .stringList, .string] = kept := by
  intro entries kept
  have hf : (({} : Message).puts entries).Fits := by decide
  have hleap : ∀ entry ∈ entries, ¬entry.1.IsLeap entry.2 := by
    simp [entries, Kind.IsLeap, Instant.IsLeap]
  obtain ⟨hself, hbody⟩ := values_kept_iff entries hf
  exact ⟨hf, hself.mpr hleap, hbody.mpr hleap⟩

/-- The last leap second of the calendar is put, but neither got nor read off the body; one
within the calendar comes back as the second after it. -/
theorem leap_second_not_kept :
    let last : Instant := ⟨8210266876799, 1000000000, by decide⟩
    let within : Instant := ⟨1483228799, 1500000000, by decide⟩
    (({} : Message).put .timestamp (some last)).gets [.timestamp] =
        [⟨.timestamp, .error (.invalidTimestamp 8210266876800000)⟩] ∧
      decode (({} : Message).put .timestamp (some last)).encode =
        .error (.invalidTimestamp 8210266876800000) ∧
      (({} : Message).put .timestamp (some within)).gets [.timestamp] =
        [⟨.timestamp, .ok (some ⟨1483228800, 500000000, by decide⟩)⟩] := by
  intro last within
  have hgot : ∀ t : Instant, (({} : Message).put .timestamp (some t)).gets [.timestamp] =
      [⟨.timestamp, Field.instant (some (.ofInt t.millis))⟩] := by
    intro t
    let message := ({} : Message).put .timestamp (some t)
    have hput : message.fields.toList.drop message.cursor =
        [(⟨.timestamp, some t⟩ : Entry)].map Entry.field := rfl
    exact gets_of_fields hput
  have hmillis : Int64.ofInt last.millis = 8210266876800000 := by decide
  have hlast : Instant.ofMillis? (Int64.toInt 8210266876800000) = none := by decide
  have hwithin : Instant.ofMillis? (Int64.ofInt within.millis).toInt =
      some ⟨1483228800, 500000000, by decide⟩ := by decide
  have hbody : (({} : Message).put .timestamp (some last)).encode =
      Field.encode (.timestamp (some 8210266876800000)) ++ [] := by decide
  have hfits : (Field.timestamp (some 8210266876800000)).Fits := trivial
  refine ⟨?_, ?_, ?_⟩
  · rw [hgot, hmillis, Field.instant, hlast]
  · rw [hbody, decode, decodeAfter_encode hfits]
    rfl
  · rw [hgot, Field.instant, hwithin]

end Message

end Parley
