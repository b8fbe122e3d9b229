import Parley.Proofs.Message.Values

/-!
# Getting a field

A get looks at the field under the cursor and at nothing else (`Gets`). If there is none, or one of
another kind, it fails and leaves the message as it is. The field of its kind counts as read before
its value is looked at, and one kind of value can be refused still: a timestamp that the calendar
does not have.

**Where such a timestamp comes from.** A body that holds one is not read, so it can only have been
put. What is put is an instant of the calendar; its milliseconds are outside only if it lies in the
leap second that ends the calendar (`Instant.inCalendar_millis_iff`).

**Theorem (`failed_get_keeps_iff`).** A failed get leaves every message that can be made as it is,
exactly if no such instant is put. If one is, its field is lost for the gets that follow
(`failed_get_moves`).
-/

namespace Parley

namespace Instant

/-- The instant lies in the leap second behind the last second of the calendar. -/
def EndsCalendar (t : Instant) : Prop := t.seconds = maxSeconds ∧ t.IsLeap

/-- Milliseconds leave the calendar in its last leap second only. -/
theorem inCalendar_millis_iff (t : Instant) : InCalendar t.millis ↔ ¬t.EndsCalendar := by
  have h := t.valid
  simp only [Valid, minSeconds, maxSeconds] at h
  simp only [InCalendar, EndsCalendar, IsLeap, millis, maxSeconds]
  omega

/-- A count of milliseconds names no leap second and nothing below a millisecond. -/
theorem whole_of_ofMillis? {count : Int} {t : Instant} (h : ofMillis? count = some t) :
    ¬t.IsLeap ∧ t.truncate = t := by
  have hleap : ¬t.IsLeap := by
    unfold ofMillis? ofSeconds? at h
    split at h
    · cases h
      simp only [IsLeap]
      omega
    · cases h
  have hsame := (ofMillis?_millis_iff t).mpr hleap
  rw [millis_of_ofMillis? h, h] at hsame
  exact ⟨hleap, (Option.some.inj hsame).symm⟩

end Instant

/-- A value that is put is got as it is: nothing of it is below a millisecond, and it is no leap
second. -/
def Message.Entry.Whole (entry : Message.Entry) : Prop :=
  ¬entry.1.IsLeap entry.2 ∧ entry.1.truncate entry.2 = entry.2

namespace Field

theorem field_eq_of_instant {held : Option Int64} {value : Option Instant}
    (h : instant held = .ok value) :
    Message.Entry.field ⟨.timestamp, value⟩ = timestamp held ∧
      Message.Entry.Whole ⟨.timestamp, value⟩ := by
  cases held with
  | none =>
    cases h
    exact ⟨rfl, (Kind.recalled_eq_ok_iff .timestamp none).mp rfl, rfl⟩
  | some millis =>
    rw [instant] at h
    split at h
    · next t ht =>
      cases h
      obtain ⟨hleap, hwhole⟩ := Instant.whole_of_ofMillis? ht
      refine ⟨?_, fun hex => ?_, congrArg some hwhole⟩
      · show timestamp (some (.ofInt t.millis)) = timestamp (some millis)
        rw [Instant.millis_of_ofMillis? ht, Int64.ofInt_toInt]
      · obtain ⟨t', ht', hl⟩ := hex
        cases ht'
        exact hleap hl
    · cases h

theorem instant_eq_error {held : Option Int64} {error : MessageError} :
    instant held = .error error ↔
      ∃ millis, held = some millis ∧ ¬Instant.InCalendar millis.toInt ∧
        error = .invalidTimestamp millis := by
  cases held with
  | none => simp [instant]
  | some millis =>
    have hcal : (Instant.ofMillis? millis.toInt).isSome ↔ Instant.InCalendar millis.toInt :=
      Instant.isSome_ofMillis? _
    simp only [instant, Option.some.injEq, exists_eq_left', ← hcal]
    cases Instant.ofMillis? millis.toInt <;> simp [eq_comm]

theorem field_eq_of_value? {kind : Kind} {field : Field} {value : kind.Value}
    (h : field.value? kind = some (.ok value)) :
    Message.Entry.field ⟨kind, value⟩ = field ∧ Message.Entry.Whole ⟨kind, value⟩ := by
  obtain rfl := (isSome_value? kind field).mp (by rw [h]; rfl)
  cases field with
  | timestamp held => exact field_eq_of_instant (Option.some.inj h)
  | _ =>
    cases h
    exact ⟨rfl, id, rfl⟩

/-- Only a timestamp can be of the right kind and have no value. -/
theorem eq_timestamp_of_value? {kind : Kind} {field : Field} {error : MessageError}
    (h : field.value? kind = some (.error error)) :
    kind = .timestamp ∧ ∃ millis, field = .timestamp (some millis) ∧
      ¬Instant.InCalendar millis.toInt ∧ error = .invalidTimestamp millis := by
  obtain rfl := (isSome_value? kind field).mp (by rw [h]; rfl)
  cases field with
  | timestamp held =>
    obtain ⟨millis, rfl, hstray, rfl⟩ := instant_eq_error.mp (Option.some.inj h)
    exact ⟨rfl, millis, rfl, hstray, rfl⟩
  | _ => cases h

end Field

namespace Message

/-! ## One get -/

/-- The field under the cursor counts as read. -/
def advance (message : Message) : Message := { message with cursor := message.cursor + 1 }

theorem advance_ne (message : Message) : message.advance ≠ message :=
  fun h => Nat.succ_ne_self _ (congrArg cursor h)

/-- What a get comes to, and the message behind it. -/
inductive Gets (message : Message) (kind : Kind) :
    Except MessageError kind.Value × Message → Prop
  | exhausted (hend : message.size ≤ message.cursor) :
    Gets message kind (.error (.exhausted message.cursor kind), message)
  | mismatched {field : Field} (hfield : message.fields[message.cursor]? = some field)
      (hkind : field.kind ≠ kind) :
    Gets message kind (.error (.kindMismatch message.cursor kind field.kind), message)
  | refused {millis : Int64} (hkind : kind = .timestamp)
      (hfield : message.fields[message.cursor]? = some (.timestamp (some millis)))
      (hstray : ¬Instant.InCalendar millis.toInt) :
    Gets message kind (.error (.invalidTimestamp millis), message.advance)
  | read {value : kind.Value}
      (hfield : message.fields[message.cursor]? = some (Entry.field ⟨kind, value⟩))
      (hwhole : Entry.Whole ⟨kind, value⟩) :
    Gets message kind (.ok value, message.advance)

theorem gets_get (message : Message) (kind : Kind) : Gets message kind (message.get kind) := by
  unfold get
  split
  · next hnone => exact .exhausted (Array.getElem?_eq_none_iff.mp hnone)
  · next field hfield =>
    split
    · next hnone =>
      refine .mismatched hfield fun hkind => ?_
      have hsome := (Field.isSome_value? kind field).mpr hkind
      rw [hnone] at hsome
      cases hsome
    · next result hvalue =>
      cases result with
      | ok value =>
        obtain ⟨rfl, hwhole⟩ := Field.field_eq_of_value? hvalue
        exact .read hfield hwhole
      | error error =>
        obtain ⟨rfl, millis, rfl, hstray, rfl⟩ := Field.eq_timestamp_of_value? hvalue
        exact .refused rfl hfield hstray

theorem Gets.cursor_le {message : Message} {kind : Kind}
    {outcome : Except MessageError kind.Value × Message} (h : Gets message kind outcome)
    (hle : message.cursor ≤ message.size) : outcome.2.cursor ≤ outcome.2.size := by
  cases h with
  | exhausted | mismatched => exact hle
  | refused _ hfield | read hfield => exact (Array.getElem?_eq_some_iff.mp hfield).1

/-! ## Messages that can be made -/

/-- The messages that can be made if only values that are `allowed` are put: new ones, and those
that a body is read as, with any puts, gets and rewinds afterwards. A copy of a message is the
message. -/
inductive Made (allowed : Entry → Prop) : Message → Prop
  | new : Made allowed {}
  | decoded {body : List UInt8} {message : Message} (h : decode body = .ok message) :
    Made allowed message
  | put {message : Message} (h : Made allowed message) {kind : Kind} {value : kind.Value}
      (ha : allowed ⟨kind, value⟩) : Made allowed (message.put kind value)
  | got {message : Message} (h : Made allowed message) (kind : Kind) :
    Made allowed (message.get kind).2
  | rewound {message : Message} (h : Made allowed message) : Made allowed message.rewind

variable {allowed : Entry → Prop} {message : Message}

theorem Made.cursor_le (h : Made allowed message) : message.cursor ≤ message.size := by
  induction h with
  | new => exact Nat.le_refl 0
  | decoded h => rw [(decode_eq_ok.mp h).1]; exact Nat.zero_le _
  | put _ _ ih =>
    rw [Message.put, cursor_push, size, fields_push, Array.size_push]
    exact Nat.le_succ_of_le ih
  | @got message _ kind ih => exact (gets_get message kind).cursor_le ih
  | rewound => exact Nat.zero_le _

theorem Made.inCalendar_or_put (h : Made allowed message) :
    ∀ field ∈ message.fields, field.InCalendar ∨ ∃ entry, allowed entry ∧ entry.field = field := by
  induction h with
  | new => exact nofun
  | decoded h => exact fun field hm => .inl ((decode_eq_ok.mp h).2.1 field hm).2
  | put _ ha ih =>
    intro field hm
    rcases Array.mem_push.mp hm with hm | rfl
    · exact ih field hm
    · exact .inr ⟨_, ha, rfl⟩
  | @got message _ kind ih => rwa [fields_get]
  | rewound _ ih => exact ih

theorem eq_timestamp_of_field {entry : Entry} {millis : Int64}
    (h : entry.field = .timestamp (some millis)) :
    ∃ t : Instant, entry = ⟨.timestamp, some t⟩ ∧ Int64.ofInt t.millis = millis := by
  obtain ⟨kind, value⟩ := entry
  cases kind with
  | timestamp =>
    cases value with
    | none => cases h
    | some t =>
      refine ⟨t, rfl, ?_⟩
      cases h
      rfl
  | _ => cases h

/-- A timestamp that is refused was put as an instant in the leap second that ends the calendar. -/
theorem Made.endsCalendar (h : Made allowed message) {millis : Int64}
    (hfield : message.fields[message.cursor]? = some (.timestamp (some millis)))
    (hstray : ¬Instant.InCalendar millis.toInt) :
    ∃ t : Instant, allowed ⟨.timestamp, some t⟩ ∧ t.EndsCalendar := by
  obtain ⟨hlt, hget⟩ := Array.getElem?_eq_some_iff.mp hfield
  rcases h.inCalendar_or_put _ (hget ▸ Array.getElem_mem hlt) with hcal | ⟨entry, ha, hentry⟩
  · exact absurd (hcal millis rfl) hstray
  · obtain ⟨t, rfl, ht⟩ := eq_timestamp_of_field hentry
    refine ⟨t, ha, ?_⟩
    by_contra hends
    rw [← ht, t.toInt_ofInt_millis] at hstray
    exact hstray ((t.inCalendar_millis_iff).mpr hends)

/-- A get that fails leaves the message as it is, unless it is about a timestamp outside the
calendar. -/
theorem get_eq_self_iff {kind : Kind} {error : MessageError}
    (h : (message.get kind).1 = .error error) :
    (message.get kind).2 = message ↔ ∀ millis, error ≠ .invalidTimestamp millis := by
  have hgets := gets_get message kind
  generalize message.get kind = outcome at h hgets
  cases hgets with
  | exhausted | mismatched => cases h; exact iff_of_true rfl nofun
  | refused =>
    cases h
    exact iff_of_false message.advance_ne fun hne => hne _ rfl
  | read => cases h

theorem get_of_endsCalendar {t : Instant} (h : t.EndsCalendar)
    (hfield : message.fields[message.cursor]? = some (Entry.field ⟨.timestamp, some t⟩)) :
    message.get .timestamp = (.error (.invalidTimestamp (.ofInt t.millis)), message.advance) := by
  have hstray : ¬Instant.InCalendar (Int64.ofInt t.millis).toInt := by
    rw [t.toInt_ofInt_millis, t.inCalendar_millis_iff, not_not]
    exact h
  rw [get_of_field hfield]
  exact congrArg (·, message.advance) (Field.instant_eq_error.mpr ⟨_, rfl, hstray, rfl⟩)

/-- If no such instant is put, no get that fails moves the cursor. -/
theorem Made.get_eq_self (h : Made allowed message)
    (hput : ∀ t, allowed ⟨.timestamp, some t⟩ → ¬t.EndsCalendar) {kind : Kind}
    {error : MessageError} (herror : (message.get kind).1 = .error error) :
    (message.get kind).2 = message := by
  have hgets := gets_get message kind
  generalize message.get kind = outcome at herror hgets ⊢
  cases hgets with
  | exhausted | mismatched => rfl
  | refused _ hfield hstray =>
    obtain ⟨t, ha, hends⟩ := h.endsCalendar hfield hstray
    exact absurd hends (hput t ha)
  | read => cases herror

/-- **When a failed get leaves a message as it is.** All fields stay, and the message stays exactly
if the failure is not about a timestamp outside the calendar. So failed gets leave every message
that can be made as it is, and with it what is left of it and all that later gets come to, exactly
if no instant is put that lies in the leap second behind the last second of the calendar. -/
theorem failed_get_keeps_iff (allowed : Entry → Prop) :
    (∀ message, Made allowed message → ∀ kind error, (message.get kind).1 = .error error →
      (message.get kind).2.fields = message.fields ∧
        ((message.get kind).2 = message ↔ ∀ millis, error ≠ .invalidTimestamp millis)) ∧
      ((∀ message, Made allowed message → ∀ kind error, (message.get kind).1 = .error error →
          (message.get kind).2 = message) ↔
        ∀ t, allowed ⟨.timestamp, some t⟩ → ¬t.EndsCalendar) := by
  refine ⟨fun message _ kind _ h => ⟨fields_get message kind, get_eq_self_iff h⟩, ?_, ?_⟩
  · intro hkeeps t ha hends
    let message := ({} : Message).put .timestamp (some t)
    have hget : message.get .timestamp =
        (.error (.invalidTimestamp (.ofInt t.millis)), message.advance) :=
      get_of_endsCalendar hends rfl
    have hsame := hkeeps message (.put .new ha) .timestamp _ (congrArg Prod.fst hget)
    rw [hget] at hsame
    exact message.advance_ne hsame
  · intro hput message hmade kind error h
    exact hmade.get_eq_self hput h

/-- Only values of other kinds than timestamps are put. A get of a string from an integer leaves the
message as it is, and so does every get that fails. -/
theorem failed_get_keeps_without_instants :
    let allowed : Entry → Prop := fun entry => entry.1 ≠ .timestamp
    let message := ({} : Message).put .int (7 : Int32)
    Made allowed message ∧
      (message.get .string).1 = .error (.kindMismatch 0 .string .int) ∧
      (message.get .string).2 = message ∧
      ∀ message, Made allowed message → ∀ kind error, (message.get kind).1 = .error error →
        (message.get kind).2 = message := by
  intro allowed message
  have hmade : Made allowed message := .put .new (by decide)
  have herror : (message.get .string).1 = .error (.kindMismatch 0 .string .int) := rfl
  obtain ⟨hfailed, hnone⟩ := failed_get_keeps_iff allowed
  refine ⟨hmade, herror, ((hfailed message hmade .string _ herror).2).mpr nofun, hnone.mpr ?_⟩
  intro t hput
  exact absurd rfl hput

/-- A timestamp in the last leap second is put; a get fails for it and loses it, so that there is no
field left for the next get. -/
theorem failed_get_moves :
    let message := ({} : Message).put .timestamp (some ⟨8210266876799, 1000000000, by decide⟩)
    Made (fun _ => True) message ∧
      message.get .timestamp =
        (.error (.invalidTimestamp 8210266876800000), { message with cursor := 1 }) ∧
      message.remaining = 1 ∧ (message.get .timestamp).2.remaining = 0 ∧
      ((message.get .timestamp).2.get .timestamp).1 = .error (.exhausted 1 .timestamp) := by
  intro message
  have hends : Instant.EndsCalendar ⟨8210266876799, 1000000000, by decide⟩ := ⟨rfl, by decide⟩
  have hget : message.get .timestamp =
      (.error (.invalidTimestamp 8210266876800000), { message with cursor := 1 }) :=
    get_of_endsCalendar hends rfl
  refine ⟨.put .new trivial, hget, rfl, ?_, ?_⟩
  · rw [hget]
    rfl
  · rw [hget]
    rfl

end Message

end Parley
