import Parley.Proofs.Message.Reading

/-!
# A message as a queue

Puts go to the end of a message, gets come from the cursor on, and a rewind puts the cursor back to
the front. So what was got since the last rewind is what was put first.

**The invariant** (`Reading.Sound`). The fields between the place where the reading began and the
cursor are those that hold the values got, one for each. A put leaves them where they are, because
the cursor is not beyond the end; a get that succeeds moves the cursor over the field whose value it
gives; a get that fails moves nothing, because no timestamp is outside the calendar
(`failed_get_keeps_iff`); a rewind makes both places the front.

**Theorem (`first_in_first_out`).** Whatever is done with a message, it holds all that was put, in
order; what was got since the last rewind is the front of that, up to the cursor; and a get fails
just at the end of the message or at a field of another kind.
-/

namespace Parley.Message

/-- What is done with a message. -/
inductive Action
  | put (entry : Entry)
  | get (kind : Kind)
  | rewind
  | encode

/-- The field that is added. -/
def Action.added? : Action → Option Field
  | put entry => some entry.field
  | get _ | rewind | encode => none

/-- A message that is being read. -/
structure Reading where
  message : Message
  /-- The cursor where the reading began: at the front after a rewind. -/
  first : Nat
  /-- What was got since, in order. -/
  got : List Entry := []

namespace Reading

/-- The reading begins with the message as it is. -/
def start (message : Message) : Reading := { message, first := message.cursor }

/-- A get that fails gives nothing, and the body is written off the message as it is. -/
def act (reading : Reading) : Action → Reading
  | .put entry => { reading with message := reading.message.put entry.1 entry.2 }
  | .get kind =>
    match reading.message.get kind with
    | (.ok value, message) => { reading with message, got := reading.got ++ [⟨kind, value⟩] }
    | (.error _, message) => { reading with message }
  | .rewind => start reading.message.rewind
  | .encode => reading

def run (reading : Reading) (actions : List Action) : Reading := actions.foldl act reading

/-- What was got lies between the place where the reading began and the cursor, and the calendar
has all fields. -/
structure Sound (reading : Reading) : Prop where
  first_le : reading.first ≤ reading.message.cursor
  cursor_le : reading.message.cursor ≤ reading.message.size
  got_eq : reading.got.map Entry.field =
    (reading.message.fields.toList.take reading.message.cursor).drop reading.first
  whole : ∀ entry ∈ reading.got, entry.Whole
  inCalendar : ∀ field ∈ reading.message.fields, field.InCalendar

variable {reading : Reading} {actions : List Action}

theorem sound_start {message : Message} (hle : message.cursor ≤ message.size)
    (hcal : ∀ field ∈ message.fields, field.InCalendar) : (start message).Sound where
  first_le := Nat.le_refl _
  cursor_le := hle
  got_eq := by
    rw [start, List.drop_of_length_le (List.length_take_le _ _)]
    rfl
  whole _ hm := absurd hm List.not_mem_nil
  inCalendar := hcal

theorem Sound.put (h : reading.Sound) {entry : Entry} (he : entry.field.InCalendar) :
    (reading.act (.put entry)).Sound where
  first_le := h.first_le
  cursor_le := by
    show reading.message.cursor ≤ (reading.message.fields.push entry.field).size
    rw [Array.size_push]
    exact Nat.le_succ_of_le h.cursor_le
  got_eq := by
    show reading.got.map Entry.field = ((reading.message.fields.push entry.field).toList.take
      reading.message.cursor).drop reading.first
    have hle : reading.message.cursor ≤ reading.message.fields.toList.length := h.cursor_le
    rw [Array.toList_push, List.take_append_of_le_length hle]
    exact h.got_eq
  whole := h.whole
  inCalendar := by
    intro field hm
    rcases Array.mem_push.mp hm with hm | rfl
    · exact h.inCalendar field hm
    · exact he

theorem Sound.get (h : reading.Sound) (kind : Kind) : (reading.act (.get kind)).Sound := by
  have hgets := gets_get reading.message kind
  simp only [act]
  generalize reading.message.get kind = outcome at hgets ⊢
  cases hgets with
  | exhausted | mismatched => exact h
  | @refused millis _ hfield hstray =>
    have hcal : (Field.timestamp (some millis)).InCalendar :=
      h.inCalendar _ (Array.mem_of_getElem? hfield)
    exact absurd (hcal millis rfl) hstray
  | @read value hfield hwhole =>
    have hlt : reading.message.cursor < reading.message.size :=
      (Array.getElem?_eq_some_iff.mp hfield).1
    have hfirst : reading.first ≤
        (reading.message.fields.toList.take reading.message.cursor).length := by
      rw [List.length_take]
      exact Nat.le_min.mpr ⟨h.first_le, h.first_le.trans h.cursor_le⟩
    refine ⟨Nat.le_succ_of_le h.first_le, hlt, ?_, ?_, h.inCalendar⟩
    · show (reading.got ++ [(⟨kind, value⟩ : Entry)]).map Entry.field =
        (reading.message.fields.toList.take (reading.message.cursor + 1)).drop reading.first
      rw [List.take_add_one, Array.getElem?_toList, hfield, List.drop_append_of_le_length hfirst,
        List.map_append, h.got_eq]
      rfl
    · intro entry hm
      rcases List.mem_append.mp hm with hm | hm
      · exact h.whole entry hm
      · rw [List.mem_singleton.mp hm]
        exact hwhole

theorem Sound.act (h : reading.Sound) {action : Action}
    (ha : ∀ field ∈ action.added?, field.InCalendar) : (reading.act action).Sound := by
  cases action with
  | put entry => exact h.put (ha entry.field rfl)
  | get kind => exact h.get kind
  | rewind => exact sound_start (Nat.zero_le _) h.inCalendar
  | encode => exact h

theorem Sound.run (h : reading.Sound)
    (ha : ∀ action ∈ actions, ∀ field ∈ action.added?, field.InCalendar) :
    (reading.run actions).Sound := by
  induction actions generalizing reading with
  | nil => exact h
  | cons action rest ih =>
    obtain ⟨haction, hrest⟩ := List.forall_mem_cons.mp ha
    exact ih (h.act haction) hrest

theorem fields_act (reading : Reading) (action : Action) :
    (reading.act action).message.fields.toList =
      reading.message.fields.toList ++ action.added?.toList := by
  cases action with
  | put entry => exact Array.toList_push
  | get kind =>
    have hfields := fields_get reading.message kind
    simp only [act, Action.added?, Option.toList_none, List.append_nil]
    generalize reading.message.get kind = outcome at hfields ⊢
    obtain ⟨result, message⟩ := outcome
    cases result <;> exact congrArg Array.toList hfields
  | rewind | encode => exact (List.append_nil _).symm

theorem fields_run (reading : Reading) (actions : List Action) :
    (reading.run actions).message.fields.toList =
      reading.message.fields.toList ++ actions.filterMap Action.added? := by
  induction actions generalizing reading with
  | nil => exact (List.append_nil _).symm
  | cons action rest ih =>
    rw [List.filterMap_cons, run, List.foldl_cons, ← run, ih, fields_act]
    cases action.added? <;> simp

theorem first_act (reading : Reading) {action : Action} (h : action ≠ .rewind) :
    (reading.act action).first = reading.first := by
  cases action with
  | get kind =>
    simp only [act]
    generalize reading.message.get kind = outcome
    obtain ⟨result, message⟩ := outcome
    cases result <;> rfl
  | rewind => exact absurd rfl h
  | put | encode => rfl

theorem first_run_of_not_mem (reading : Reading) (h : .rewind ∉ actions) :
    (reading.run actions).first = reading.first := by
  induction actions generalizing reading with
  | nil => rfl
  | cons action rest ih =>
    obtain ⟨haction, hrest⟩ := List.ne_and_not_mem_of_not_mem_cons h
    exact (ih (reading.act action) hrest).trans (reading.first_act (Ne.symm haction))

theorem first_run_of_mem (reading : Reading) (h : .rewind ∈ actions) :
    (reading.run actions).first = 0 := by
  induction actions generalizing reading with
  | nil => cases h
  | cons action rest ih =>
    by_cases hrest : .rewind ∈ rest
    · exact ih (reading.act action) hrest
    · obtain rfl : .rewind = action := (List.mem_cons.mp h).resolve_right hrest
      exact first_run_of_not_mem (reading.act .rewind) hrest

end Reading

/-- A get fails just at the end, or at a field of another kind. -/
theorem get_eq_error {message : Message} (hle : message.cursor ≤ message.size)
    (hcal : ∀ field ∈ message.fields, field.InCalendar) (kind : Kind) (error : MessageError) :
    (message.get kind).1 = .error error ↔
      message.cursor = message.size ∧ error = .exhausted message.cursor kind ∨
        ∃ field, message.fields[message.cursor]? = some field ∧ field.kind ≠ kind ∧
          error = .kindMismatch message.cursor kind field.kind := by
  have hgets := gets_get message kind
  generalize message.get kind = outcome at hgets ⊢
  -- A field under the cursor means that the message is not at its end.
  have hbefore : ∀ {field}, message.fields[message.cursor]? = some field →
      message.cursor ≠ message.size :=
    fun hfield => Nat.ne_of_lt (Array.getElem?_eq_some_iff.mp hfield).1
  cases hgets with
  | exhausted hend =>
    have hat : message.cursor = message.size := Nat.le_antisymm hle hend
    constructor
    · intro h
      cases h
      exact .inl ⟨hat, rfl⟩
    · intro h
      rcases h with ⟨-, rfl⟩ | ⟨field, hfield, -⟩
      · rfl
      · exact absurd hat (hbefore hfield)
  | @mismatched field hfield hkind =>
    constructor
    · intro h
      cases h
      exact .inr ⟨field, hfield, hkind, rfl⟩
    · intro h
      rcases h with ⟨hat, -⟩ | ⟨other, hother, -, rfl⟩
      · exact absurd hat (hbefore hfield)
      · cases hfield.symm.trans hother
        rfl
  | @refused millis _ hfield hstray =>
    have hcalendar : (Field.timestamp (some millis)).InCalendar :=
      hcal _ (Array.mem_of_getElem? hfield)
    exact absurd (hcalendar millis rfl) hstray
  | @read value hfield hwhole =>
    refine iff_of_false nofun fun h => ?_
    rcases h with ⟨hat, -⟩ | ⟨other, hother, hkind, -⟩
    · exact hbefore hfield hat
    · cases hfield.symm.trans hother
      exact hkind (Field.kind_ofValue kind value)

/-- **First in, first out, with a rewind.** A message with timestamps of the calendar is read while
fields of the same sort are put, and perhaps rewound. Then the cursor is within the message; all
that was ever put is there, in order; what was got since the last rewind is the front of it, up to
the cursor (without a rewind, from where the reading began); and a get fails just at the end, or at
a field of another kind, and says where. -/
theorem first_in_first_out {allowed : Entry → Prop} {message : Message}
    (hmade : Made allowed message) (hcal : ∀ field ∈ message.fields, field.InCalendar)
    {actions : List Action}
    (hput : ∀ action ∈ actions, ∀ field ∈ action.added?, field.InCalendar) :
    let reading := (Reading.start message).run actions
    let all := message.fields.toList ++ actions.filterMap Action.added?
    let k := reading.message.size - reading.message.remaining
    reading.message.cursor ≤ reading.message.size ∧
      reading.message.fields.toList = all ∧
      (.rewind ∈ actions ∨ message.cursor = 0 → reading.got.map Entry.field = all.take k) ∧
      (.rewind ∉ actions → reading.got.map Entry.field = (all.take k).drop message.cursor) ∧
      (∀ entry ∈ reading.got, entry.Whole) ∧
      ∀ kind error, (reading.message.get kind).1 = .error error ↔
        k = all.length ∧ error = .exhausted k kind ∨
          ∃ field, all[k]? = some field ∧ field.kind ≠ kind ∧
            error = .kindMismatch k kind field.kind := by
  intro reading all k
  have hsound : reading.Sound := (Reading.sound_start hmade.cursor_le hcal).run hput
  have hall : reading.message.fields.toList = all := Reading.fields_run _ actions
  have hk : k = reading.message.cursor := Nat.sub_sub_self hsound.cursor_le
  have hgot : reading.got.map Entry.field = (all.take k).drop reading.first := by
    rw [hsound.got_eq, hall, hk]
  refine ⟨hsound.cursor_le, hall, ?_, ?_, hsound.whole, ?_⟩
  · intro hfront
    have hfirst : reading.first = 0 := by
      by_cases hrewind : .rewind ∈ actions
      · exact Reading.first_run_of_mem _ hrewind
      · rw [Reading.first_run_of_not_mem _ hrewind]
        exact hfront.resolve_left hrewind
    rw [hgot, hfirst, List.drop_zero]
  · intro hrewind
    rw [hgot, Reading.first_run_of_not_mem _ hrewind]
    rfl
  · intro kind error
    rw [get_eq_error hsound.cursor_le hsound.inCalendar, hk, ← hall, Array.getElem?_toList]
    rfl

/-- A number was put and got, when a timestamp is put behind it. A get of the wrong kind fails, the
timestamp is got, and then nothing is left; behind the rewind the number is got again, and then
comes the timestamp. -/
theorem first_in_first_out_rewound :
    let message := ((({} : Message).put .int 7).get .int).2
    let actions : List Action := [.put ⟨.timestamp, some ⟨-1, 999999999, by decide⟩⟩, .get .bool,
      .get .timestamp, .get .timestamp, .rewind, .get .int, .encode]
    let reading := (Reading.start message).run actions
    (Made (fun _ => True) message ∧ (∀ field ∈ message.fields, field.InCalendar) ∧
        ∀ action ∈ actions, ∀ field ∈ action.added?, field.InCalendar) ∧
      reading.message.fields.toList = [.int 7, .timestamp (some (-1))] ∧
      reading.got.map Entry.field = [.int 7] ∧
      (reading.message.get .int).1 = .error (.kindMismatch 1 .int .timestamp) := by
  intro message actions reading
  have hmade : Made (fun _ => True) message := .got (.put .new trivial) .int
  have hcal : ∀ field ∈ message.fields, field.InCalendar := by
    have hfields : message.fields = #[.int 7] := rfl
    simp [hfields, Field.InCalendar]
  have hadded : actions.filterMap Action.added? = [.timestamp (some (-1))] := by
    simp only [actions]
    decide +kernel
  have hput : ∀ action ∈ actions, ∀ field ∈ action.added?, field.InCalendar := by
    intro action hm field hfield
    have hin : field ∈ actions.filterMap Action.added? :=
      List.mem_filterMap.mpr ⟨action, hm, hfield⟩
    rw [hadded, List.mem_singleton] at hin
    rw [hin]
    intro millis hmillis
    cases hmillis
    decide
  have hk : reading.message.size - reading.message.remaining = 1 := by
    simp only [reading, actions, message]
    decide +kernel
  have hrewind : .rewind ∈ actions := by simp [actions]
  obtain ⟨-, hall, hgot, -, -, hfails⟩ := first_in_first_out hmade hcal hput
  rw [hadded] at hall hgot
  refine ⟨⟨hmade, hcal, hput⟩, hall, ?_, ?_⟩
  · have hgot := hgot (.inl hrewind)
    rw [hk] at hgot
    exact hgot
  · refine (hfails .int _).mpr (.inr ⟨.timestamp (some (-1)), ?_, by decide, ?_⟩)
    · rw [hk, hadded]
      rfl
    · rw [hk]
      rfl

end Parley.Message
