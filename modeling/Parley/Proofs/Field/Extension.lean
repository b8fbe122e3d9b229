import Parley.Proofs.Field.Reads

/-!
# Fields with more bytes behind them

What becomes of a decoder when bytes are added at the end of its input, and with them to the bound
that declared lengths are held against.

**What lasts.** A value that is read is read again. A refusal that is not about missing bytes comes
of bytes that are there, so it is repeated word for word. A refusal for missing bytes reports how
many, at least one, and as long as fewer are added the decoder still refuses (`Lasts`). `Extends`
says all three of a decoder and the same decoder with the looser bound.

**The bound.** A count of strings is held against an eighth of the bytes left, rounded down, and the
excess is reported in multiples of eight. So fewer bytes than reported can lift the bound to the
count. Then the strings run out of bytes instead: each takes eight, and the bound counted the eight
bytes of the count too (`Decoder.texts_of_excess`).

**Theorem (`Field.lasts_decode`).** The refusal of a field lasts, with all that is behind the field
for its bound.
-/

namespace Parley

/-- How many bytes are missing, if the error is about that. -/
def DecodeError.missing? : DecodeError → Option Nat
  | unexpectedEnd additional => some additional
  | unknownTag _ | badPresence _ _ | badBool _ | badText _ => none

/-- The error stands when bytes are added, and the longer input comes to `outcome`: it is the same
error, or if it is about missing bytes, it is an error as long as fewer bytes than these are
added. -/
structure Lasts {ε α : Type} (missing? : Option Nat) (added : Nat) (error : ε)
    (outcome : Except ε α) : Prop where
  same : missing? = none → outcome = .error error
  missing : ∀ missing, missing? = some missing →
    0 < missing ∧ (added < missing → ∃ other, outcome = .error other)

/-- Who fails as another does fails as long as the other. -/
theorem Lasts.lift {ε ε' α β : Type} {missing? : Option Nat} {added : Nat} {error : ε}
    {outcome : Except ε α} {outcome' : Except ε' β} (h : Lasts missing? added error outcome)
    (wrap : ε → ε') (hw : ∀ other, outcome = .error other → outcome' = .error (wrap other)) :
    Lasts missing? added (wrap error) outcome' where
  same hm := hw error (h.same hm)
  missing n hn := by
    obtain ⟨hpos, herror⟩ := h.missing n hn
    refine ⟨hpos, fun hlt => ?_⟩
    obtain ⟨other, hother⟩ := herror hlt
    exact ⟨wrap other, hw other hother⟩

namespace Decoder

open Decoding

variable {α β : Type} {bound : Nat} {more : List UInt8}

theorem bind_of_error {first : Decoder α} {next : α → Decoder β} {error : DecodeError}
    {input : List UInt8} (h : first input = .error error) :
    (first >>= next) input = .error error := by
  simp only [bind, StateT.bind, Except.bind, h]

theorem bind_eq_error {first : Decoder α} {next : α → Decoder β} {error : DecodeError}
    {input : List UInt8} :
    (first >>= next) input = .error error ↔
      first input = .error error ∨
        ∃ a mid, first input = .ok (a, mid) ∧ next a mid = .error error := by
  simp only [bind, StateT.bind, Except.bind]
  cases first input with
  | error cause => simp
  | ok result => simp [Prod.ext_iff, and_assoc]

theorem refuse_eq_error {cause error : DecodeError} {input : List UInt8} :
    (refuse cause : Decoder α) input = .error error ↔ cause = error := by
  constructor
  · intro h
    cases h
    rfl
  · intro h
    subst h
    rfl

/-- Of inputs of at most `bound` bytes, what `strict` reads `loose` reads with `more` behind it, and
what `strict` refuses `loose` refuses with `more` behind it, as far as the refusal lasts. -/
structure Extends (bound : Nat) (more : List UInt8) (strict loose : Decoder α) : Prop where
  /-- What is left to read is within the bound too. -/
  leaves : LeavesSuffix strict
  ok : ∀ ⦃input value rest⦄, input.length ≤ bound → strict input = .ok (value, rest) →
    loose (input ++ more) = .ok (value, rest ++ more)
  error : ∀ ⦃input error⦄, input.length ≤ bound → strict input = .error error →
    Lasts error.missing? more.length error (loose (input ++ more))

theorem extends_pure (value : α) : Extends bound more (pure value) (pure value) where
  leaves := leavesSuffix_pure value
  ok input value' rest _ h := by
    obtain ⟨rfl, rfl⟩ := pure_eq_ok.mp h
    rfl
  error input error _ h := by cases h

theorem extends_refuse {error : DecodeError} (h : error.missing? = none) :
    Extends bound more (refuse error : Decoder α) (refuse error) where
  leaves := leavesSuffix_refuse error
  ok input value rest _ hread := absurd hread refuse_ne_ok
  error input cause _ hread := by
    obtain rfl := refuse_eq_error.mp hread
    exact ⟨fun _ => rfl, fun missing hm => by rw [h] at hm; cases hm⟩

/-- One decoder after the other: what is read first extends, and its refusals last for both. -/
theorem Extends.bind_of {first first' : Decoder α} {next next' : α → Decoder β}
    (hs : LeavesSuffix first)
    (hf : ∀ ⦃input a mid⦄, first input = .ok (a, mid) → input.length ≤ bound →
      first' (input ++ more) = .ok (a, mid ++ more))
    (he : ∀ ⦃input error⦄, first input = .error error → input.length ≤ bound →
      Lasts error.missing? more.length error ((first' >>= next') (input ++ more)))
    (hn : ∀ a, Extends bound more (next a) (next' a)) :
    Extends bound more (first >>= next) (first' >>= next') where
  leaves := leavesSuffix_bind hs fun a => (hn a).leaves
  ok input value rest hb h := by
    obtain ⟨a, mid, ha, hv⟩ := bind_eq_ok.mp h
    have hmid : mid.length ≤ bound := (hs ha).length_le.trans hb
    exact bind_eq_ok.mpr ⟨a, mid ++ more, hf ha hb, (hn a).ok hmid hv⟩
  error input error hb h := by
    rcases bind_eq_error.mp h with hfirst | ⟨a, mid, ha, hnext⟩
    · exact he hfirst hb
    · have hmid : mid.length ≤ bound := (hs ha).length_le.trans hb
      have hrun : (first' >>= next') (input ++ more) = next' a (mid ++ more) := by
        simp only [Bind.bind, StateT.bind, Except.bind, hf ha hb]
      rw [hrun]
      exact (hn a).error hmid hnext

theorem Extends.bind {first first' : Decoder α} {next next' : α → Decoder β}
    (hf : Extends bound more first first') (hn : ∀ a, Extends bound more (next a) (next' a)) :
    Extends bound more (first >>= next) (first' >>= next') :=
  bind_of hf.leaves (fun _ _ _ ha hb => hf.ok hb ha)
    (fun _ _ ha hb => (hf.error hb ha).lift id fun _ => bind_of_error) hn

theorem bytes_eq_error {n : Nat} {input : List UInt8} {error : DecodeError} :
    (bytes n : Decoder (List UInt8)) input = .error error ↔
      input.length < n ∧ error = .unexpectedEnd (n - input.length) := by
  have hshort : ¬(input.take n).length = n ↔ input.length < n := by
    rw [List.length_take]
    omega
  simp only [bytes]
  constructor
  · intro h
    split at h
    · cases h
    · next hn =>
      have hlt := hshort.mp hn
      cases h
      rw [List.take_of_length_le (Nat.le_of_lt hlt)]
      exact ⟨hlt, rfl⟩
  · intro h
    obtain ⟨hlt, rfl⟩ := h
    rw [if_neg (hshort.mpr hlt), List.take_of_length_le (Nat.le_of_lt hlt)]

theorem extends_bytes (n : Nat) : Extends bound more (bytes n) (bytes n) where
  leaves := leavesSuffix_bytes n
  ok input content rest _ h := by
    obtain ⟨hn, rfl⟩ := bytes_eq_ok.mp h
    exact bytes_eq_ok.mpr ⟨hn, List.append_assoc _ _ _⟩
  error input error _ h := by
    obtain ⟨hlt, rfl⟩ := bytes_eq_error.mp h
    refine ⟨nofun, fun missing hm => ?_⟩
    cases hm
    refine ⟨Nat.sub_pos_of_lt hlt, fun hadded => ⟨_, bytes_eq_error.mpr ⟨?_, rfl⟩⟩⟩
    rw [List.length_append]
    omega

theorem extends_word (width : Nat) : Extends bound more (word width) (word width) :=
  (extends_bytes width).bind fun _ => extends_pure _

theorem extends_byte : Extends bound more byte byte :=
  (extends_word 1).bind fun _ => extends_pure _

theorem extends_bool : Extends bound more bool bool := by
  refine extends_byte.bind fun found => ?_
  split
  · exact extends_pure _
  · exact extends_pure _
  · exact extends_refuse rfl

theorem extends_nullable (kind : Kind) {strict loose : Decoder α}
    (h : Extends bound more strict loose) :
    Extends bound more (nullable kind strict) (nullable kind loose) := by
  refine extends_byte.bind fun presence => ?_
  split
  · exact extends_pure _
  · exact h.bind fun _ => extends_pure _
  · exact extends_refuse rfl

/-! ## Declared lengths -/

/-- A length that passes the bound passes a looser one. -/
theorem count_extend {size n : Nat} {input rest : List UInt8}
    (h : (count bound size : Decoder Nat) input = .ok (n, rest)) :
    (count (bound + more.length) size : Decoder Nat) (input ++ more) =
      .ok (n, rest ++ more) := by
  obtain ⟨hle, hlt, rfl⟩ := count_eq_ok.mp h
  have hloose : bound / size ≤ (bound + more.length) / size :=
    Nat.div_le_div_right (Nat.le_add_right _ _)
  exact count_eq_ok.mpr ⟨hle.trans hloose, hlt, List.append_assoc _ _ _⟩

/-- A length is refused because it is cut short itself or because it exceeds the bound; then the
excess is reported in bytes, as far as sixty-four bits can count it. -/
theorem count_eq_error {size : Nat} {input : List UInt8} {error : DecodeError} :
    (count bound size : Decoder Nat) input = .error error ↔
      (word 8 : Decoder Nat) input = .error error ∨
        ∃ declared rest, (word 8 : Decoder Nat) input = .ok (declared, rest) ∧
          bound / size < declared ∧
          error = .unexpectedEnd (min ((declared - bound / size) * size) (UInt64.size - 1)) := by
  rw [count, bind_eq_error]
  refine or_congr Iff.rfl (exists₂_congr fun declared rest => and_congr_right fun _ => ?_)
  split
  · next hle => exact iff_of_false (fun hread => by cases hread) (by omega)
  · next hlt => rw [refuse_eq_error, eq_comm, and_iff_right (Nat.lt_of_not_le hlt)]

theorem excess_pos {size declared : Nat} (hs : 0 < size) (h : bound / size < declared) :
    0 < min ((declared - bound / size) * size) (UInt64.size - 1) := by
  have hexcess : 0 < (declared - bound / size) * size :=
    Nat.mul_pos (Nat.sub_pos_of_lt h) hs
  have hsize : 0 < UInt64.size - 1 := by decide
  omega

/-- A string that declares too many bytes does so until the excess is added. -/
theorem extends_count_one : Extends bound more (count bound 1) (count (bound + more.length) 1) where
  leaves := leavesSuffix_count bound 1
  ok _ _ _ _ h := count_extend h
  error input error hb h := by
    rcases count_eq_error.mp h with hword | ⟨declared, rest, hword, hexcess, rfl⟩
    · exact ((extends_word 8).error hb hword).lift id fun _ => bind_of_error
    · refine ⟨nofun, fun missing hm => ?_⟩
      cases hm
      refine ⟨excess_pos Nat.one_pos hexcess, fun hadded => ?_⟩
      have hstill : (bound + more.length) / 1 < declared := by
        rw [Nat.div_one] at hexcess hadded ⊢
        omega
      have hlonger : (word 8 : Decoder Nat) (input ++ more) = .ok (declared, rest ++ more) :=
        (extends_word 8).ok hb hword
      exact ⟨_, count_eq_error.mpr (.inr ⟨declared, rest ++ more, hlonger, hstill, rfl⟩)⟩

theorem extends_text : Extends bound more (text bound) (text (bound + more.length)) := by
  refine extends_count_one.bind fun n => (extends_bytes n).bind fun content => ?_
  split
  · exact extends_pure _
  · exact extends_refuse rfl

theorem extends_textsAfter (n : Nat) (done : Array String) :
    Extends bound more (textsAfter bound n done) (textsAfter (bound + more.length) n done) := by
  induction n generalizing done with
  | zero => exact extends_pure _
  | succ n ih => exact extends_text.bind fun _ => ih _

/-- **A count that exceeds the bound.** As long as fewer bytes than the excess are added, either the
bound is still too low or there is no room for so many strings. -/
theorem texts_of_excess {declared : Nat} {input rest : List UInt8} (hb : input.length ≤ bound)
    (hword : (word 8 : Decoder Nat) input = .ok (declared, rest)) (hexcess : bound / 8 < declared)
    (hadded : more.length < (declared - bound / 8) * 8) :
    ∃ error, (texts (bound + more.length) : Decoder (List String)) (input ++ more) =
      .error error := by
  cases hrun : (texts (bound + more.length) : Decoder (List String)) (input ++ more) with
  | error error => exact ⟨error, rfl⟩
  | ok result =>
    obtain ⟨n, mid, hcount, hall⟩ := bind_eq_ok.mp hrun
    obtain ⟨all, left, hread, -⟩ := bind_eq_ok.mp hall
    obtain ⟨-, hlt, hin⟩ := count_eq_ok.mp hcount
    have hlonger : (word 8 : Decoder Nat) (input ++ more) = .ok (declared, rest ++ more) :=
      (extends_word 8).ok hb hword
    have hagain : (word 8 : Decoder Nat) (input ++ more) = .ok (n, mid) :=
      word_eq_ok.mpr ⟨hlt, hin⟩
    obtain ⟨rfl, rfl⟩ : declared = n ∧ rest ++ more = mid := by
      simpa using hlonger.symm.trans hagain
    obtain ⟨-, rfl⟩ := word_eq_ok.mp hword
    rw [List.length_append, length_bigEndian] at hb
    have hmid : (rest ++ more).length ≤ bound + more.length := by
      rw [List.length_append]
      omega
    -- The strings take eight bytes each, and so does their count, in front of them.
    obtain ⟨strings, hn, -, hrest, -⟩ := (textsAfter_eq_ok hmid).mp hread
    have hroom := length_flatMap_encodeText strings
    have hlen := congrArg List.length hrest
    rw [List.length_append, List.length_append] at hlen
    omega

theorem extends_texts : Extends bound more (texts bound) (texts (bound + more.length)) := by
  refine .bind_of (leavesSuffix_count bound 8) (fun _ _ _ h _ => count_extend h) ?_ fun n =>
    (extends_textsAfter n #[]).bind fun _ => extends_pure _
  intro input error h hb
  rcases count_eq_error.mp h with hword | ⟨declared, rest, hword, hexcess, rfl⟩
  · exact ((extends_word 8).error hb hword).lift id fun _ hshort =>
      bind_of_error (bind_of_error hshort)
  · refine ⟨nofun, fun missing hm => ?_⟩
    cases hm
    refine ⟨excess_pos (Nat.succ_pos 7) hexcess, fun hadded => ?_⟩
    exact texts_of_excess hb hword hexcess (by omega)

/-! ## The whole field -/

theorem extends_payload (body : List UInt8) (kind : Kind) :
    Extends body.length more (payload body kind) (payload (body ++ more) kind) := by
  have hlen : (body ++ more).length = body.length + more.length := List.length_append
  cases kind <;> simp only [payload, hlen] <;> refine .bind ?_ fun _ => extends_pure _
  case bool => exact extends_bool
  case byte => exact extends_byte
  case short | int | long | float | double => exact extends_word _
  case string => exact extends_nullable _ extends_text
  case timestamp => exact extends_nullable _ (extends_word 8)
  case stringList | stringArray => exact extends_nullable _ extends_texts

end Decoder

namespace Field

/-- **The refusal of a field lasts.** -/
theorem lasts_decode {input : List UInt8} {error : DecodeError}
    (h : decode input = .error error) (more : List UInt8) :
    Lasts error.missing? more.length error (decode (input ++ more)) := by
  cases input with
  | nil =>
    have hnil : decode [] = .error (.unexpectedEnd 1) := rfl
    obtain rfl := Except.error.inj (hnil.symm.trans h)
    refine ⟨nofun, fun missing hm => ?_⟩
    cases hm
    refine ⟨Nat.one_pos, fun hlt => ?_⟩
    obtain rfl := List.length_eq_zero_iff.mp (Nat.lt_one_iff.mp hlt)
    exact ⟨_, h⟩
  | cons tag input =>
    rw [decode_cons] at h
    rw [List.cons_append, decode_cons]
    cases hk : Kind.ofTag? tag with
    | some kind =>
      rw [hk] at h
      exact (Decoder.extends_payload (tag :: input) kind).error (Nat.le_succ _) h
    | none =>
      rw [hk] at h
      cases h
      exact ⟨fun _ => rfl, nofun⟩

end Field

end Parley
