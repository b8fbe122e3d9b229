import Parley.Proofs.Field.Extension

/-!
# Declared lengths that are let through

Whoever reads a field makes room for a declared length as soon as the length has passed its check,
before any of what it declares is read: a length that passes is a grant. `Metered` is a monad that
the decoders can be run in. It keeps the grants of a reading, also of one that fails later on, and
reads as `Decoder` does otherwise (`Metered.decoder_field`).

**A field that is read.** It was granted the lengths that it declares and no others
(`Metered.grants_of_decode`). Their bytes were read, and of every string the eight bytes of its
length as well, so the grants come to less than the field takes (`Field.granted_declared`).

**A field that is refused.** All its grants but the last were used up by what was read; the last may
be as large as the bound, and a count of strings is granted only once. So what is granted in vain is
still within twice the bytes that are left (`Metered.granted_of_error`).
-/

namespace Parley

/-- A declared length that is let through. -/
structure Grant where
  /-- How many bytes an element takes at least: one for the bytes of a string, eight for the strings
  of a sequence. -/
  size : Nat
  /-- How many elements there are to be. -/
  length : Nat
  deriving DecidableEq, Repr

/-- The lengths granted for elements of the size, taken together. -/
def granted (size : Nat) (grants : List Grant) : Nat :=
  ((grants.filter fun grant => grant.size = size).map Grant.length).sum

@[simp] theorem granted_nil (size : Nat) : granted size [] = 0 := rfl

@[simp] theorem granted_cons (size : Nat) (grant : Grant) (grants : List Grant) :
    granted size (grant :: grants) =
      (if grant.size = size then grant.length else 0) + granted size grants := by
  unfold granted
  split <;> simp_all

@[simp] theorem granted_append (size : Nat) (grants more : List Grant) :
    granted size (grants ++ more) = granted size grants + granted size more := by
  simp [granted]

/-! ## What a field declares -/

namespace Field

/-- The length that a string declares. -/
def textGrant (text : String) : Grant := ⟨1, text.utf8ByteSize⟩

/-- The count that a sequence declares, and then the lengths of its strings. -/
def textsGrants (texts : List String) : List Grant := ⟨8, texts.length⟩ :: texts.map textGrant

/-- The lengths that a field declares, in the order in which they are written. -/
def declared : Field → List Grant
  | string value => value.elim [] fun text => [textGrant text]
  | stringList value | stringArray value => value.elim [] textsGrants
  | _ => []

theorem granted_map_textGrant (texts : List String) :
    granted 1 (texts.map textGrant) + 8 * texts.length = (texts.flatMap encodeText).length ∧
      granted 8 (texts.map textGrant) = 0 := by
  induction texts with
  | nil => exact ⟨rfl, rfl⟩
  | cons text texts ih =>
    obtain ⟨hbytes, hcounts⟩ := ih
    rw [List.map_cons, granted_cons, granted_cons, hcounts, List.flatMap_cons, List.length_append,
      length_encodeText, List.length_cons, ← hbytes]
    refine ⟨?_, rfl⟩
    simp only [textGrant, if_true]
    omega

theorem granted_textsGrants (texts : List String) :
    granted 1 (textsGrants texts) + 8 * granted 8 (textsGrants texts) ≤
      (encodeTexts texts).length := by
  obtain ⟨hbytes, hcounts⟩ := granted_map_textGrant texts
  rw [textsGrants, granted_cons, granted_cons, hcounts, encodeTexts, List.length_append,
    length_bigEndian, ← hbytes]
  simp only [OfNat.ofNat_ne_one, if_true, if_false]
  omega

/-- The bytes and strings that a field declares, eight bytes for a string, are among its bytes, and
the tag and the byte behind it are not. -/
theorem granted_declared (field : Field) :
    granted 1 field.declared + 8 * granted 8 field.declared + 2 ≤ field.encode.length := by
  cases field with
  | string value =>
    cases value with
    | none => simp [declared, encode, payload, encodeNullable]
    | some text =>
      simp [declared, encode, payload, encodeNullable, textGrant, length_encodeText]
  | stringList value | stringArray value =>
    cases value with
    | none => simp [declared, encode, payload, encodeNullable]
    | some texts =>
      have := granted_textsGrants texts
      simp only [declared, Option.elim, encode, payload, encodeNullable, List.length_cons]
      omega
  | timestamp value => cases value <;> simp [declared, encode, payload, encodeNullable]
  | _ => simp [declared, encode, payload]

end Field

/-! ## Decoders that keep their grants -/

/-- A decoder that keeps its grants. -/
structure Metered (α : Type) where
  decoder : Decoder α
  /-- The lengths that are let through when an input is read, in order. -/
  grants : List UInt8 → List Grant

namespace Metered

open Decoder Decoding

variable {α β : Type} {bound : Nat}

/-- The grants of one decoder, and then those of the next, unless the first one fails. -/
instance : Monad Metered where
  pure value := ⟨pure value, fun _ => []⟩
  bind first next :=
    { decoder := first.decoder >>= fun value => (next value).decoder
      grants := fun input => first.grants input ++
        match first.decoder input with
        | .ok (value, rest) => (next value).grants rest
        | .error _ => [] }

/-- A decoder that lets nothing through. -/
def lift (decoder : Decoder α) : Metered α := ⟨decoder, fun _ => []⟩

instance : Decoding Metered where
  left := lift left
  bytes n := lift (bytes n)
  refuse error := lift (refuse error)
  grant size length := ⟨grant size length, fun _ => [⟨size, length⟩]⟩

/-- Reads one field and keeps its grants. -/
def field : Metered Field := Decoder.field

/-! ## They read as the decoders do -/

@[simp] theorem decoder_pure (value : α) : (pure value : Metered α).decoder = pure value := rfl

@[simp] theorem decoder_bind (first : Metered α) (next : α → Metered β) :
    (first >>= next).decoder = first.decoder >>= fun value => (next value).decoder := rfl

@[simp] theorem decoder_word (width : Nat) : (word width : Metered Nat).decoder = word width := rfl

@[simp] theorem decoder_byte : (byte : Metered UInt8).decoder = byte := rfl

@[simp] theorem decoder_bool : (Decoder.bool : Metered Bool).decoder = Decoder.bool := by
  refine bind_congr fun found => ?_
  dsimp only
  split <;> rfl

@[simp] theorem decoder_nullable (kind : Kind) (value : Metered α) :
    (nullable kind value).decoder = nullable kind value.decoder := by
  refine bind_congr fun presence => ?_
  dsimp only
  split <;> rfl

@[simp] theorem decoder_count (size : Nat) :
    (count bound size : Metered Nat).decoder = count bound size := by
  refine bind_congr fun declared => ?_
  dsimp only
  split <;> rfl

@[simp] theorem decoder_text : (text bound : Metered String).decoder = text bound := by
  rw [text, decoder_bind, decoder_count]
  refine bind_congr fun n => bind_congr fun content => ?_
  dsimp only
  cases Utf8.decode content <;> rfl

@[simp] theorem decoder_textsAfter (n : Nat) (done : Array String) :
    (textsAfter bound n done : Metered (Array String)).decoder = textsAfter bound n done := by
  induction n generalizing done with
  | zero => rfl
  | succ n ih => simp only [textsAfter, decoder_bind, decoder_text, ih]

@[simp] theorem decoder_texts : (texts bound : Metered (List String)).decoder = texts bound := by
  simp only [texts, decoder_bind, decoder_count, decoder_textsAfter, decoder_pure]

theorem decoder_payload (body : List UInt8) (kind : Kind) :
    (payload body kind : Metered Field).decoder = payload body kind := by
  cases kind <;> simp only [payload, decoder_bind, decoder_pure, decoder_word, decoder_byte,
    decoder_bool, decoder_nullable, decoder_text, decoder_texts]

theorem decoder_field : field.decoder = Field.decode := by
  refine bind_congr fun body => bind_congr fun tag => ?_
  dsimp only
  cases Kind.ofTag? tag with
  | some kind => exact decoder_payload body kind
  | none => rfl

/-! ## What is granted -/

theorem grants_bind (first : Metered α) (next : α → Metered β) (input : List UInt8) :
    (first >>= next).grants input = first.grants input ++
      match first.decoder input with
      | .ok (value, rest) => (next value).grants rest
      | .error _ => [] := rfl

theorem grants_bind_of_ok {first : Metered α} {next : α → Metered β} {value : α}
    {input rest : List UInt8} (h : first.decoder input = .ok (value, rest)) :
    (first >>= next).grants input = first.grants input ++ (next value).grants rest := by
  rw [grants_bind, h]

theorem grants_bind_of_error {first : Metered α} {next : α → Metered β} {error : DecodeError}
    {input : List UInt8} (h : first.decoder input = .error error) :
    (first >>= next).grants input = first.grants input := by
  rw [grants_bind, h, List.append_nil]

theorem grants_bind_of_nil {first : Metered α} {next : α → Metered β}
    (h : ∀ value rest, (next value).grants rest = []) (input : List UInt8) :
    (first >>= next).grants input = first.grants input := by
  rw [grants_bind]
  cases first.decoder input <;> simp [h]

theorem grants_word (width : Nat) (input : List UInt8) : grants (word width) input = [] :=
  grants_bind_of_nil (fun _ _ => rfl) input

theorem grants_byte (input : List UInt8) : grants byte input = [] :=
  (grants_bind_of_nil (fun _ _ => rfl) input).trans (grants_word 1 input)

theorem grants_bool (input : List UInt8) : grants Decoder.bool input = [] := by
  refine (grants_bind_of_nil (fun found rest => ?_) input).trans (grants_byte input)
  split <;> rfl

theorem grants_count_of_ok {size n : Nat} {input rest : List UInt8}
    (h : (count bound size : Decoder Nat) input = .ok (n, rest)) :
    grants (count bound size) input = [⟨size, n⟩] := by
  obtain ⟨declared, mid, hword, hpass⟩ := bind_eq_ok.mp h
  rw [← decoder_word] at hword
  rw [count, grants_bind_of_ok hword, grants_word]
  split at hpass
  · next hle =>
    obtain ⟨rfl, -⟩ := pure_eq_ok.mp hpass
    rw [if_pos hle]
    rfl
  · exact absurd hpass refuse_ne_ok

theorem grants_count_of_error {size : Nat} {error : DecodeError} {input : List UInt8}
    (h : (count bound size : Decoder Nat) input = .error error) :
    grants (count bound size) input = [] := by
  rcases count_eq_error.mp h with hword | ⟨declared, rest, hword, hexcess, -⟩
  · rw [← decoder_word] at hword
    rw [count, grants_bind_of_error hword, grants_word]
  · rw [← decoder_word] at hword
    rw [count, grants_bind_of_ok hword, grants_word, if_neg (Nat.not_le_of_lt hexcess)]
    rfl

theorem grants_text (input : List UInt8) :
    grants (text bound) input = grants (count bound 1) input := by
  refine grants_bind_of_nil (fun n rest => ?_) input
  refine grants_bind_of_nil (fun content rest => ?_) rest
  split <;> rfl

theorem mem_grants_bind {first : Metered α} {next : α → Metered β} {input : List UInt8}
    {grant : Grant} (h : grant ∈ (first >>= next).grants input) :
    grant ∈ first.grants input ∨
      ∃ value rest, first.decoder input = .ok (value, rest) ∧
        grant ∈ (next value).grants rest := by
  rw [grants_bind, List.mem_append] at h
  rcases h with h | h
  · exact .inl h
  · cases hf : first.decoder input with
    | ok result =>
      rw [hf] at h
      exact .inr ⟨result.1, result.2, rfl, h⟩
    | error error =>
      rw [hf] at h
      cases h

/-- How a decoder accounts for its grants, on inputs of at most the `bound` bytes that lengths are
held against. No grant exceeds the bound. A value that is read was granted what it declares. If none
can be read, what was granted is the input and one grant more. -/
structure Accounts (bound : Nat) (metered : Metered α) (declared : α → List Grant) : Prop where
  within : ∀ ⦃input grant⦄, grant ∈ metered.grants input → grant.length ≤ bound / grant.size
  ok : ∀ ⦃input value rest⦄, input.length ≤ bound → metered.decoder input = .ok (value, rest) →
    metered.grants input = declared value
  error : ∀ ⦃input error⦄, input.length ≤ bound → metered.decoder input = .error error →
    granted 1 (metered.grants input) ≤ input.length + bound ∧
      8 * granted 8 (metered.grants input) ≤ bound

variable {metered : Metered α} {declared : α → List Grant}

theorem accounts_of_nil (h : ∀ input, metered.grants input = []) :
    Accounts bound metered fun _ => [] where
  within input grant hm := by
    rw [h] at hm
    cases hm
  ok _ _ _ _ _ := h _
  error input error _ _ := by
    rw [h]
    exact ⟨Nat.zero_le _, Nat.zero_le _⟩

theorem Accounts.map (h : Accounts bound metered declared) {make : α → β}
    {declared' : β → List Grant} (hmake : ∀ value, declared' (make value) = declared value) :
    Accounts bound (do return make (← metered)) declared' := by
  have hgrants : ∀ input, (do return make (← metered) : Metered β).grants input =
      metered.grants input := grants_bind_of_nil fun _ _ => rfl
  refine ⟨fun input grant hm => ?_, fun input made rest hb hread => ?_,
    fun input error hb hread => ?_⟩
  · exact h.within (hgrants input ▸ hm)
  · obtain ⟨value, mid, hvalue, hmade⟩ := bind_eq_ok.mp hread
    obtain ⟨rfl, -⟩ := pure_eq_ok.mp hmade
    rw [hgrants, h.ok hb hvalue, hmake]
  · rw [hgrants]
    rcases bind_eq_error.mp hread with hread | ⟨_, _, -, hpure⟩
    · exact h.error hb hread
    · cases hpure

theorem grants_nullable_cons (kind : Kind) (presence : UInt8) (input : List UInt8) :
    grants (nullable kind metered) (presence :: input) =
      if presence = 1 then metered.grants input else [] := by
  have hbyte : (byte : Metered UInt8).decoder (presence :: input) = .ok (presence, input) :=
    byte_cons presence input
  rw [nullable, grants_bind_of_ok hbyte, grants_byte, List.nil_append]
  split
  · rfl
  · exact grants_bind_of_nil (fun _ _ => rfl) input
  · next hvalue =>
    rw [if_neg hvalue]
    rfl

theorem accounts_nullable (kind : Kind) (h : Accounts bound metered declared) :
    Accounts bound (nullable kind metered) fun value => value.elim [] declared where
  within input grant hm := by
    cases input with
    | nil => cases hm
    | cons presence input =>
      rw [grants_nullable_cons] at hm
      split at hm
      · exact h.within hm
      · cases hm
  ok input value rest hb hread := by
    rw [decoder_nullable] at hread
    obtain ⟨presence, mid, hpresence, hvalue⟩ := bind_eq_ok.mp hread
    obtain rfl := byte_eq_ok.mp hpresence
    rw [grants_nullable_cons]
    split at hvalue
    · obtain ⟨rfl, -⟩ := pure_eq_ok.mp hvalue
      rfl
    · obtain ⟨a, left, ha, hsome⟩ := bind_eq_ok.mp hvalue
      obtain ⟨rfl, -⟩ := pure_eq_ok.mp hsome
      exact h.ok (Nat.le_of_succ_le hb) ha
    · exact absurd hvalue refuse_ne_ok
  error input error hb hread := by
    rw [decoder_nullable] at hread
    rcases bind_eq_error.mp hread with hpresence | ⟨presence, mid, hpresence, hvalue⟩
    · cases input with
      | nil => exact ⟨Nat.zero_le _, Nat.zero_le _⟩
      | cons presence input => rw [byte_cons] at hpresence; cases hpresence
    · obtain rfl := byte_eq_ok.mp hpresence
      rw [grants_nullable_cons, List.length_cons]
      split at hvalue
      · cases hvalue
      · rcases bind_eq_error.mp hvalue with hvalue | ⟨_, _, -, hsome⟩
        · obtain ⟨hbytes, hcounts⟩ := h.error (Nat.le_of_succ_le hb) hvalue
          exact ⟨by rw [if_pos rfl]; omega, hcounts⟩
        · cases hsome
      · next hpresent =>
        rw [if_neg hpresent]
        exact ⟨Nat.zero_le _, Nat.zero_le _⟩

theorem within_count {size : Nat} {input : List UInt8} {grant : Grant}
    (h : grant ∈ grants (count bound size) input) : grant.length ≤ bound / grant.size := by
  cases hc : (count bound size : Decoder Nat) input with
  | ok result =>
    rw [grants_count_of_ok hc] at h
    obtain rfl := List.mem_singleton.mp h
    exact (count_eq_ok.mp hc).1
  | error error =>
    rw [grants_count_of_error hc] at h
    cases h

/-- A string is granted its length once, within the bound, whether it can be read or not. -/
theorem granted_text_le (bound : Nat) (input : List UInt8) :
    granted 1 (grants (text bound) input) ≤ bound ∧ granted 8 (grants (text bound) input) = 0 := by
  rw [grants_text]
  cases hc : (count bound 1 : Decoder Nat) input with
  | ok result =>
    have hle := (count_eq_ok.mp hc).1
    rw [Nat.div_one] at hle
    rw [grants_count_of_ok hc]
    exact ⟨by simpa using hle, rfl⟩
  | error error =>
    rw [grants_count_of_error hc]
    exact ⟨Nat.zero_le _, rfl⟩

theorem accounts_text : Accounts bound (text bound) fun value => [Field.textGrant value] where
  within input grant hm := within_count (grants_text input ▸ hm)
  ok input value rest hb hread := by
    rw [decoder_text] at hread
    obtain ⟨hfits, rfl⟩ := (reads_text bound hb).mp hread
    have hle : (Utf8.encode value).length ≤ bound / 1 := by
      rw [List.length_append, Field.length_encodeText] at hb
      rw [Utf8.length_encode, Nat.div_one]
      omega
    have hcount : (count bound 1 : Decoder Nat) (Field.encodeText value ++ rest) =
        .ok ((Utf8.encode value).length, Utf8.encode value ++ rest) :=
      count_eq_ok.mpr ⟨hle, hfits, List.append_assoc _ _ _⟩
    rw [grants_text, grants_count_of_ok hcount]
    rfl
  error input error hb _ := by
    obtain ⟨hbytes, hcounts⟩ := granted_text_le bound input
    exact ⟨hbytes.trans (Nat.le_add_left _ _), by rw [hcounts]; exact Nat.zero_le _⟩

/-! ## Strings one after the other -/

theorem within_textsAfter {n : Nat} {done : Array String} {input : List UInt8} {grant : Grant}
    (h : grant ∈ grants (textsAfter bound n done) input) : grant.length ≤ bound / grant.size := by
  induction n generalizing done input with
  | zero => cases h
  | succ n ih =>
    rcases mem_grants_bind h with h | ⟨value, rest, -, h⟩
    · exact accounts_text.within h
    · exact ih h

theorem grants_textsAfter_of_ok {n : Nat} {done all : Array String} {input rest : List UInt8}
    (hb : input.length ≤ bound)
    (h : (textsAfter bound n done : Decoder (Array String)) input = .ok (all, rest)) :
    done.toList.map Field.textGrant ++ grants (textsAfter bound n done) input =
      all.toList.map Field.textGrant := by
  induction n generalizing done input with
  | zero =>
    obtain ⟨rfl, -⟩ := pure_eq_ok.mp h
    exact List.append_nil _
  | succ n ih =>
    obtain ⟨value, mid, hvalue, hmore⟩ := bind_eq_ok.mp h
    have hmid : mid.length ≤ bound :=
      (leavesSuffix_text bound hvalue).length_le.trans hb
    rw [← decoder_text] at hvalue
    rw [textsAfter, grants_bind_of_ok hvalue, accounts_text.ok hb hvalue, ← ih hmid hmore,
      Array.toList_push, List.map_append, List.append_assoc]
    rfl

/-- The strings that were read have used up their grants; the last one may have been granted the
bound. -/
theorem granted_textsAfter_of_error {n : Nat} {done : Array String} {input : List UInt8}
    {error : DecodeError} (hb : input.length ≤ bound)
    (h : (textsAfter bound n done : Decoder (Array String)) input = .error error) :
    granted 1 (grants (textsAfter bound n done) input) ≤ input.length + bound ∧
      granted 8 (grants (textsAfter bound n done) input) = 0 := by
  induction n generalizing done input with
  | zero => cases h
  | succ n ih =>
    rcases bind_eq_error.mp h with hfirst | ⟨value, mid, hvalue, hmore⟩
    · rw [← decoder_text] at hfirst
      rw [textsAfter, grants_bind_of_error hfirst]
      exact ⟨(accounts_text.error hb hfirst).1, (granted_text_le bound input).2⟩
    · obtain ⟨-, rfl⟩ := (reads_text bound hb).mp hvalue
      obtain ⟨hbytes, hcounts⟩ := ih (length_le_of_append hb) hmore
      rw [← decoder_text] at hvalue
      rw [textsAfter, grants_bind_of_ok hvalue, accounts_text.ok hb hvalue, List.singleton_append,
        granted_cons, granted_cons, hcounts, List.length_append, Field.length_encodeText]
      refine ⟨?_, rfl⟩
      simp only [Field.textGrant, if_true]
      omega

theorem accounts_texts : Accounts bound (texts bound) Field.textsGrants where
  within input grant hm := by
    rcases mem_grants_bind hm with hm | ⟨n, mid, -, hm⟩
    · exact within_count hm
    · rw [grants_bind_of_nil fun _ _ => rfl] at hm
      exact within_textsAfter hm
  ok input value rest hb hread := by
    rw [decoder_texts] at hread
    obtain ⟨n, mid, hcount, hmore⟩ := bind_eq_ok.mp hread
    obtain ⟨all, left, hall, hlist⟩ := bind_eq_ok.mp hmore
    obtain ⟨rfl, -⟩ := pure_eq_ok.mp hlist
    have hmid : mid.length ≤ bound := (leavesSuffix_count bound 8 hcount).length_le.trans hb
    have hstrings := grants_textsAfter_of_ok hmid hall
    obtain ⟨more, hn, -, -, hmore⟩ := (textsAfter_eq_ok hmid).mp hall
    obtain rfl : n = all.toList.length := by rw [hmore, ← hn]; rfl
    have hgrants := grants_count_of_ok hcount
    rw [← decoder_count] at hcount
    rw [texts, grants_bind_of_ok hcount, hgrants, grants_bind_of_nil fun _ _ => rfl,
      Field.textsGrants, ← hstrings]
    rfl
  error input error hb hread := by
    rw [decoder_texts] at hread
    rcases bind_eq_error.mp hread with hcount | ⟨n, mid, hcount, hmore⟩
    · have hgrants := grants_count_of_error hcount
      rw [← decoder_count] at hcount
      rw [texts, grants_bind_of_error hcount, hgrants]
      exact ⟨Nat.zero_le _, Nat.zero_le _⟩
    · have hmid : mid.length ≤ input.length :=
        (leavesSuffix_count bound 8 hcount).length_le
      have hn := (count_eq_ok.mp hcount).1
      have hgrants := grants_count_of_ok hcount
      rw [← decoder_count] at hcount
      rw [texts, grants_bind_of_ok hcount, hgrants, grants_bind_of_nil fun _ _ => rfl,
        List.singleton_append, granted_cons, granted_cons]
      rcases bind_eq_error.mp hmore with hmore | ⟨_, _, -, hlist⟩
      · obtain ⟨hbytes, hcounts⟩ := granted_textsAfter_of_error (hmid.trans hb) hmore
        rw [hcounts]
        simp only [OfNat.ofNat_ne_one, if_true, if_false]
        omega
      · cases hlist

/-! ## The whole field -/

theorem accounts_payload (body : List UInt8) (kind : Kind) :
    Accounts body.length (payload body kind) Field.declared := by
  cases kind with
  | bool => exact (accounts_of_nil grants_bool).map fun _ => rfl
  | byte => exact (accounts_of_nil grants_byte).map fun _ => rfl
  | short | int | long | float | double =>
    exact (accounts_of_nil (grants_word _)).map fun _ => rfl
  | string => exact (accounts_nullable .string accounts_text).map fun _ => rfl
  | timestamp =>
    refine (accounts_nullable .timestamp (accounts_of_nil (grants_word 8))).map fun value => ?_
    cases value <;> rfl
  | stringList => exact (accounts_nullable .stringList accounts_texts).map fun _ => rfl
  | stringArray => exact (accounts_nullable .stringArray accounts_texts).map fun _ => rfl

theorem grants_field_cons (tag : UInt8) (input : List UInt8) :
    field.grants (tag :: input) = match Kind.ofTag? tag with
      | some kind => grants (payload (tag :: input) kind) input
      | none => [] := by
  have htag : (byte : Metered UInt8).decoder (tag :: input) = .ok (tag, input) :=
    byte_cons tag input
  have hbody : (left : Metered (List UInt8)).decoder (tag :: input) =
      .ok (tag :: input, tag :: input) := rfl
  rw [field, Decoder.field, grants_bind_of_ok hbody, grants_bind_of_ok htag, grants_byte]
  cases Kind.ofTag? tag <;> rfl

theorem within_field {input : List UInt8} {grant : Grant} (h : grant ∈ field.grants input) :
    grant.length ≤ input.length / grant.size := by
  cases input with
  | nil => cases h
  | cons tag input =>
    rw [grants_field_cons] at h
    split at h
    · exact (accounts_payload _ _).within h
    · cases h

theorem grants_of_decode {input rest : List UInt8} {value : Field}
    (h : Field.decode input = .ok (value, rest)) : field.grants input = value.declared := by
  cases input with
  | nil => exact absurd (Field.length_lt_of_decode h) (Nat.not_lt_zero _)
  | cons tag input =>
    rw [Field.decode_cons] at h
    rw [grants_field_cons]
    cases hk : Kind.ofTag? tag with
    | some kind =>
      rw [hk] at h
      have hread := (congrFun (decoder_payload (tag :: input) kind) input).trans h
      exact (accounts_payload _ kind).ok (Nat.le_succ _) hread
    | none => rw [hk] at h; cases h

/-- A field that is refused was granted no more bytes than twice those that are left, and no more
strings than there is room for. -/
theorem granted_of_error {input : List UInt8} {error : DecodeError}
    (h : Field.decode input = .error error) :
    granted 1 (field.grants input) ≤ 2 * input.length ∧
      8 * granted 8 (field.grants input) ≤ input.length := by
  cases input with
  | nil => exact ⟨Nat.zero_le _, Nat.zero_le _⟩
  | cons tag input =>
    rw [Field.decode_cons] at h
    rw [grants_field_cons]
    cases hk : Kind.ofTag? tag with
    | some kind =>
      rw [hk] at h
      have hread := (congrFun (decoder_payload (tag :: input) kind) input).trans h
      obtain ⟨hbytes, hcounts⟩ := (accounts_payload _ kind).error (Nat.le_succ _) hread
      refine ⟨hbytes.trans ?_, hcounts⟩
      rw [List.length_cons]
      omega
    | none => exact ⟨Nat.zero_le _, Nat.zero_le _⟩

end Metered

end Parley
