import Mathlib.Data.List.Chain
import Parley.Proofs.Field.Grants
import Parley.Proofs.Message.Concatenation

/-!
# The rounds in which a body is read

A body is read in rounds, a field in each, from the offset where the field before it ends.
`readFrom` reads as `decodeAfter` does (`readFrom_fst`) and keeps a record of its rounds, with the
lengths that each of them grants.

**The last round.** A round that reads its field was granted less than it moves the offset on
(`Field.granted_declared`), so the rounds before the last were granted no more than the bytes up to
the last. Only the last can be granted anything in vain, and no more than twice the bytes that are
left for it (`Metered.granted_of_error`).

**Theorem (`work_bounded`).** Whatever lengths a body declares, and whether it is read or refused,
it takes at most one round for every two of its bytes and one more, and all that is granted on the
way is in proportion to its bytes.
-/

namespace Parley.Message

/-- One round of reading a body. -/
structure Round where
  /-- Where in the body the tag of its field is. -/
  offset : Nat
  /-- The declared lengths that are let through, in order. -/
  grants : List Grant
  /-- The field and the number of bytes it takes, or why there is none. -/
  outcome : Except DecodeError (Field × Nat)

/-- The round that reads a field at the offset. -/
def roundAt (body : List UInt8) (offset : Nat) : Round where
  offset
  grants := Metered.field.grants (body.drop offset)
  outcome := (Metered.field.decoder (body.drop offset)).map fun read =>
    (read.1, (body.drop offset).length - read.2.length)

variable {body : List UInt8} {offset : Nat} {done : Array Field}

/-! ## One round -/

theorem outcome_roundAt_eq_error {cause : DecodeError} :
    (roundAt body offset).outcome = .error cause ↔
      Field.decode (body.drop offset) = .error cause := by
  rw [roundAt, Metered.decoder_field]
  cases Field.decode (body.drop offset) <;> simp [Except.map]

/-- The field that is read is in front of what is left, which begins where it ends. -/
theorem outcome_roundAt_eq_ok {field : Field} {taken : Nat} :
    (roundAt body offset).outcome = .ok (field, taken) ↔
      Field.decode (body.drop offset) = .ok (field, body.drop (offset + taken)) ∧
        taken = field.encode.length := by
  rw [roundAt, Metered.decoder_field]
  constructor
  · intro h
    obtain ⟨read, hd, hread⟩ : ∃ read, Field.decode (body.drop offset) = .ok read ∧
        (read.1, (body.drop offset).length - read.2.length) = (field, taken) := by
      cases hd : Field.decode (body.drop offset) with
      | ok read => rw [hd] at h; exact ⟨read, rfl, Except.ok.inj h⟩
      | error cause => rw [hd] at h; cases h
    obtain ⟨value, rest⟩ := read
    cases hread
    obtain ⟨-, hfront⟩ := Field.decode_eq_ok.mp hd
    have htaken : (body.drop offset).length - rest.length = value.encode.length := by
      rw [hfront, List.length_append, Nat.add_sub_cancel]
    rw [hd, htaken, ← List.drop_drop, hfront, List.drop_left]
    exact ⟨rfl, rfl⟩
  · intro hread
    obtain ⟨hd, rfl⟩ := hread
    obtain ⟨-, hfront⟩ := Field.decode_eq_ok.mp hd
    have hlength := congrArg List.length hfront
    rw [List.length_append] at hlength
    rw [hd]
    simp only [Except.map, hlength, Nat.add_sub_cancel]

theorem taken_bounds {field : Field} {taken : Nat}
    (h : (roundAt body offset).outcome = .ok (field, taken)) :
    2 ≤ taken ∧ offset + taken ≤ body.length := by
  obtain ⟨hd, rfl⟩ := outcome_roundAt_eq_ok.mp h
  obtain ⟨-, hfront⟩ := Field.decode_eq_ok.mp hd
  have hlength := congrArg List.length hfront
  rw [List.length_append, List.length_drop] at hlength
  have htwo := Field.granted_declared field
  omega

theorem within_roundAt {grant : Grant} (h : grant ∈ (roundAt body offset).grants) :
    grant.length ≤ (body.length - offset) / grant.size := by
  rw [← List.length_drop]
  exact Metered.within_field h

/-- A round that reads its field is granted less than the bytes it takes. -/
theorem granted_roundAt_of_ok {field : Field} {taken : Nat}
    (h : (roundAt body offset).outcome = .ok (field, taken)) :
    granted 1 (roundAt body offset).grants + 8 * granted 8 (roundAt body offset).grants ≤
      taken := by
  obtain ⟨hd, rfl⟩ := outcome_roundAt_eq_ok.mp h
  have hdeclared := Field.granted_declared field
  have hgrants : (roundAt body offset).grants = field.declared := Metered.grants_of_decode hd
  rw [hgrants]
  omega

theorem granted_roundAt_of_error {cause : DecodeError}
    (h : (roundAt body offset).outcome = .error cause) :
    granted 1 (roundAt body offset).grants ≤ 2 * (body.length - offset) ∧
      8 * granted 8 (roundAt body offset).grants ≤ body.length - offset := by
  rw [← List.length_drop]
  exact Metered.granted_of_error (outcome_roundAt_eq_error.mp h)

/-! ## All rounds -/

/-- The fields from the offset on, after the ones already read, with a record of the rounds. -/
def readFrom (body : List UInt8) (offset : Nat) (done : Array Field) :
    Except MessageError (Array Field) × List Round :=
  if offset < body.length then
    match _h : (roundAt body offset).outcome with
    | .error cause => (.error (.undecodable cause), [roundAt body offset])
    | .ok (field, taken) =>
      match strayTimestamp? field with
      | some millis => (.error (.invalidTimestamp millis), [roundAt body offset])
      | none =>
        let later := readFrom body (offset + taken) (done.push field)
        (later.1, roundAt body offset :: later.2)
  else (.ok done, [])
termination_by body.length - offset
decreasing_by
  have := taken_bounds _h
  omega

theorem readFrom_fst (body : List UInt8) (offset : Nat) (done : Array Field) :
    (readFrom body offset done).1 = decodeAfter done (body.drop offset) := by
  fun_induction readFrom body offset done with
  | case1 offset done hlt cause h =>
    have hne : (body.drop offset).isEmpty = false := by simpa using hlt
    exact (decodeAfter_of_error hne (outcome_roundAt_eq_error.mp h)).symm
  | case2 offset done hlt field taken h millis hstray =>
    obtain ⟨hfits, hfront⟩ := Field.decode_eq_ok.mp (outcome_roundAt_eq_ok.mp h).1
    rw [hfront, decodeAfter_encode hfits, hstray]
  | case3 offset done hlt field taken h hstray later ih =>
    obtain ⟨hfits, hfront⟩ := Field.decode_eq_ok.mp (outcome_roundAt_eq_ok.mp h).1
    rw [hfront, decodeAfter_encode hfits, hstray]
    exact ih
  | case4 offset done hge => rw [List.drop_of_length_le (Nat.le_of_not_lt hge), decodeAfter_nil]

theorem eq_roundAt_of_mem {round : Round} (h : round ∈ (readFrom body offset done).2) :
    round.offset < body.length ∧ round = roundAt body round.offset := by
  fun_induction readFrom body offset done with
  | case1 offset done hlt | case2 offset done hlt =>
    obtain rfl := List.mem_singleton.mp h
    exact ⟨hlt, rfl⟩
  | case3 offset done hlt field taken _ _ later ih =>
    rcases List.mem_cons.mp h with rfl | h
    · exact ⟨hlt, rfl⟩
    · exact ih h
  | case4 => cases h

theorem offset_of_mem_head? {round : Round} (h : round ∈ (readFrom body offset done).2.head?) :
    round.offset = offset := by
  fun_induction readFrom body offset done with
  | case1 | case2 | case3 => cases h; rfl
  | case4 => cases h

/-- A round begins where the field of the round before it ends. -/
def Round.Follows (next round : Round) : Prop :=
  ∃ field taken, round.outcome = .ok (field, taken) ∧ next.offset = round.offset + taken

theorem isChain_readFrom (body : List UInt8) (offset : Nat) (done : Array Field) :
    (readFrom body offset done).2.IsChain fun round next =>
      next.Follows round ∧ round.offset < next.offset := by
  fun_induction readFrom body offset done with
  | case1 | case2 => exact .singleton _
  | case3 offset done _ field taken h _ later ih =>
    refine List.isChain_cons.mpr ⟨fun next hnext => ?_, ih⟩
    have hoffset : next.offset = offset + taken := offset_of_mem_head? hnext
    refine ⟨⟨field, taken, h, hoffset⟩, ?_⟩
    have := taken_bounds h
    show offset < next.offset
    omega
  | case4 => exact .nil

theorem length_readFrom_le (body : List UInt8) (offset : Nat) (done : Array Field) :
    2 * (readFrom body offset done).2.length ≤ body.length - offset + 1 := by
  fun_induction readFrom body offset done with
  | case1 offset done hlt | case2 offset done hlt =>
    rw [List.length_singleton]
    omega
  | case3 offset done hlt field taken h _ later ih =>
    have := taken_bounds h
    change 2 * later.2.length ≤ _ at ih
    rw [List.length_cons]
    omega
  | case4 => exact Nat.zero_le _

/-- The rounds before the last are granted what they take, and the last what may be left. -/
theorem granted_readFrom_le (body : List UInt8) (offset : Nat) (done : Array Field) :
    granted 1 ((readFrom body offset done).2.flatMap Round.grants) ≤ 2 * (body.length - offset) ∧
      8 * granted 8 ((readFrom body offset done).2.flatMap Round.grants) ≤
        body.length - offset := by
  fun_induction readFrom body offset done with
  | case1 offset done _ cause h =>
    rw [List.flatMap_singleton]
    exact granted_roundAt_of_error h
  | case2 offset done _ field taken h =>
    have := taken_bounds h
    have := granted_roundAt_of_ok h
    rw [List.flatMap_singleton]
    omega
  | case3 offset done _ field taken h _ later ih =>
    have := taken_bounds h
    have := granted_roundAt_of_ok h
    change granted 1 (later.2.flatMap _) ≤ _ ∧ 8 * granted 8 (later.2.flatMap _) ≤ _ at ih
    rw [List.flatMap_cons, granted_append, granted_append]
    omega
  | case4 => exact ⟨Nat.zero_le _, Nat.zero_le _⟩

/-- What a round reads and what it is granted are within the bytes that are left of the body. -/
structure Round.Bounded (body : List UInt8) (round : Round) : Prop where
  offset_lt : round.offset < body.length
  read : ∀ field taken, round.outcome = .ok (field, taken) →
    Field.decode (body.drop round.offset) = .ok (field, body.drop (round.offset + taken)) ∧
      2 ≤ taken ∧ round.offset + taken ≤ body.length
  within : ∀ grant ∈ round.grants, grant.length ≤ (body.length - round.offset) / grant.size

theorem bounded_of_mem {round : Round} (h : round ∈ (readFrom body offset done).2) :
    round.Bounded body := by
  obtain ⟨hlt, hround⟩ := eq_roundAt_of_mem h
  refine ⟨hlt, fun field taken hread => ?_, fun grant hm => ?_⟩
  · rw [hround] at hread
    exact ⟨(outcome_roundAt_eq_ok.mp hread).1, taken_bounds hread⟩
  · rw [hround] at hm
    exact within_roundAt hm

/-! ## Bodies -/

/-- **Reading a body is bounded work**, whatever lengths it declares and whether it is read or
refused. The rounds come to what `decode` comes to. The first begins at the front of the body and
every other one where the field before it ends, further on. Each of them begins inside the body,
takes two bytes at least for a field that it reads and none beyond the end, and lets no length
through that exceeds the bytes left from its tag on, counted in elements. There are at most half as
many rounds as bytes, and one more. Over all of them the lengths of strings that are let through
come to at most twice the bytes of the body, and the counts of sequences to at most a quarter. -/
theorem work_bounded (body : List UInt8) :
    let run := readFrom body 0 #[]
    let grants := run.2.flatMap Round.grants
    decode body = run.1.map (fun fields => { fields }) ∧
      (∀ round ∈ run.2.head?, round.offset = 0) ∧
      (run.2.IsChain fun round next => next.Follows round ∧ round.offset < next.offset) ∧
      (∀ round ∈ run.2, round.Bounded body) ∧
      run.2.length ≤ body.length / 2 + 1 ∧
      granted 1 grants ≤ 2 * body.length ∧ granted 8 grants ≤ body.length / 4 := by
  have hrun : (readFrom body 0 #[]).1 = decodeAfter #[] body := readFrom_fst body 0 #[]
  have hrounds := length_readFrom_le body 0 #[]
  obtain ⟨hbytes, hcounts⟩ := granted_readFrom_le body 0 #[]
  refine ⟨?_, fun _ => offset_of_mem_head?, isChain_readFrom body 0 #[], fun _ => bounded_of_mem,
    ?_, hbytes, ?_⟩
  · rw [hrun, decode]
  · omega
  · omega

/-- A list declares two strings; the first is read, and the second declares as many bytes as the
whole body has. More bytes are granted than there are. -/
example :
    let body : List UInt8 :=
      [9, 1, 0, 0, 0, 0, 0, 0, 0, 2, 0, 0, 0, 0, 0, 0, 0, 1, 0x61, 0, 0, 0, 0, 0, 0, 0, 27]
    body.length = 27 ∧ decode body = .error (.undecodable (.unexpectedEnd 27)) ∧
      (readFrom body 0 #[]).2.flatMap Round.grants = [⟨8, 2⟩, ⟨1, 1⟩, ⟨1, 27⟩] := by
  intro body
  refine ⟨rfl, ?_, ?_⟩
  · simp only [body]
    cbv
  · simp only [body]
    cbv

theorem grants_readFrom_of_ok {fields : Array Field}
    (h : (readFrom body offset done).1 = .ok fields) :
    done.toList.flatMap Field.declared ++ (readFrom body offset done).2.flatMap Round.grants =
      fields.toList.flatMap Field.declared := by
  fun_induction readFrom body offset done with
  | case1 | case2 => cases h
  | case3 offset done _ field taken hread _ later ih =>
    have hgrants : (roundAt body offset).grants = field.declared :=
      Metered.grants_of_decode (outcome_roundAt_eq_ok.mp hread).1
    rw [← ih h, List.flatMap_cons, hgrants, Array.toList_push, List.flatMap_append,
      List.flatMap_singleton, List.append_assoc]
  | case4 =>
    cases h
    exact List.append_nil _

/-- **A body that is read is granted nothing in vain.** The lengths that are let through are those
that its message declares, each once and in order. -/
theorem grants_of_decode_eq_ok {message : Message} (h : decode body = .ok message) :
    (readFrom body 0 #[]).2.flatMap Round.grants =
      message.fields.toList.flatMap Field.declared := by
  have hfields : (readFrom body 0 #[]).1 = .ok message.fields := by
    rw [readFrom_fst, List.drop_zero]
    rw [decode] at h
    cases hd : decodeAfter #[] body with
    | ok fields => rw [hd] at h; cases h; rfl
    | error cause => rw [hd] at h; cases h
  exact grants_readFrom_of_ok hfields

end Parley.Message
