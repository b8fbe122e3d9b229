import Mathlib.Tactic.IntervalCases
import Parley.Field.Decode
import Parley.Field.Encode

/-!
# Reading is the inverse of writing

For every decoder there is an encoder, and the decoder accepts exactly what the encoder
writes, with any bytes behind it. `Reads` says so in one equivalence: from left to right
it excludes every other spelling of a value, from right to left it makes sure that no
written value is refused.

**The bound.** A declared length is held against the bytes left in the body, counted from
the tag of the field. `Reads` is stated for inputs that are no longer than this bound. Then
the check never decides: a length that passes the reads under it passes the check as well,
since a string takes as many bytes as it declares, and each string of a sequence takes at
least the eight bytes of its own length.

**Theorem (`Field.decode_eq_ok`).** Reading a field gives `field` and leaves `rest` exactly
if `field` fits the format and the input is the bytes of `field` followed by `rest`. There
is no bound left, because a field sees itself in front of its own payload.
-/

namespace Parley

/-! ## What fits the format

A length is written in eight bytes. -/

namespace Field

/-- The byte length of a string fits eight bytes. -/
def TextFits (text : String) : Prop := text.utf8ByteSize < UInt64.size

/-- The count of a sequence and the lengths of its strings fit eight bytes. -/
def TextsFit (texts : List String) : Prop :=
  texts.length < UInt64.size ∧ ∀ text ∈ texts, TextFits text

/-- All lengths of a field fit eight bytes. -/
def Fits : Field → Prop
  | string value => ∀ text ∈ value, TextFits text
  | stringList value | stringArray value => ∀ texts ∈ value, TextsFit texts
  | _ => True

instance (text : String) : Decidable (TextFits text) :=
  inferInstanceAs (Decidable (_ < _))

instance (texts : List String) : Decidable (TextsFit texts) :=
  inferInstanceAs (Decidable (_ ∧ _))

instance : (field : Field) → Decidable field.Fits
  | string value => inferInstanceAs (Decidable (∀ text ∈ value, TextFits text))
  | stringList value | stringArray value =>
    inferInstanceAs (Decidable (∀ texts ∈ value, TextsFit texts))
  | bool _ | byte _ | short _ | int _ | long _ | float _ | double _ | timestamp _ =>
    .isTrue trivial

end Field

/-! ## Steps of a decoder -/

namespace Decoder

open Parley.Field Decoding

variable {α β : Type}

theorem pure_eq_ok {a value : α} {input rest : List UInt8} :
    (pure a : Decoder α) input = .ok (value, rest) ↔ a = value ∧ input = rest := by
  constructor
  · intro h
    cases h
    exact ⟨rfl, rfl⟩
  · intro h
    obtain ⟨rfl, rfl⟩ := h
    rfl

theorem refuse_ne_ok {error : DecodeError} {value : α} {input rest : List UInt8} :
    ¬(refuse error : Decoder α) input = .ok (value, rest) := by
  intro h
  cases h

theorem bind_eq_ok {first : Decoder α} {next : α → Decoder β} {value : β}
    {input rest : List UInt8} :
    (first >>= next) input = .ok (value, rest) ↔
      ∃ a mid, first input = .ok (a, mid) ∧ next a mid = .ok (value, rest) := by
  simp only [bind, StateT.bind, Except.bind]
  constructor
  · intro h
    split at h
    · cases h
    · next result heq => exact ⟨result.1, result.2, heq, h⟩
  · intro hread
    obtain ⟨a, mid, hf, hn⟩ := hread
    rw [hf]
    exact hn

theorem bytes_eq_ok {n : Nat} {content input rest : List UInt8} :
    (bytes n : Decoder (List UInt8)) input = .ok (content, rest) ↔
      content.length = n ∧ input = content ++ rest := by
  simp only [bytes]
  constructor
  · intro h
    split at h
    · next hn =>
      cases h
      exact ⟨hn, (List.take_append_drop n input).symm⟩
    · cases h
  · intro hwritten
    obtain ⟨rfl, rfl⟩ := hwritten
    simp

theorem word_eq_ok {width n : Nat} {input rest : List UInt8} :
    (word width : Decoder Nat) input = .ok (n, rest) ↔
      n < 1 <<< (8 * width) ∧ input = bigEndian width n ++ rest := by
  simp only [word, bind_eq_ok, bytes_eq_ok, pure_eq_ok]
  constructor
  · intro hread
    obtain ⟨content, mid, ⟨rfl, rfl⟩, rfl, rfl⟩ := hread
    exact ⟨ofBigEndian_lt content, by rw [bigEndian_ofBigEndian]⟩
  · intro hwritten
    obtain ⟨hn, rfl⟩ := hwritten
    exact ⟨bigEndian width n, rest, ⟨length_bigEndian width n, rfl⟩,
      ofBigEndian_bigEndian hn, rfl⟩

theorem byte_eq_ok {b : UInt8} {input rest : List UInt8} :
    (byte : Decoder UInt8) input = .ok (b, rest) ↔ input = b :: rest := by
  constructor
  · intro h
    cases input with
    | nil => cases h
    | cons c input =>
      rw [byte_cons] at h
      cases h
      rfl
  · intro h
    subst h
    exact byte_cons b rest

theorem count_eq_ok {bound size n : Nat} {input rest : List UInt8} :
    (count bound size : Decoder Nat) input = .ok (n, rest) ↔
      n ≤ bound / size ∧ n < UInt64.size ∧ input = bigEndian 8 n ++ rest := by
  have hsize : (1 : Nat) <<< (8 * 8) = UInt64.size := by decide
  simp only [count, bind_eq_ok, word_eq_ok, hsize]
  constructor
  · intro hread
    obtain ⟨declared, mid, ⟨hlt, hin⟩, h⟩ := hread
    split at h
    · next hle =>
      obtain ⟨rfl, rfl⟩ := pure_eq_ok.mp h
      exact ⟨hle, hlt, hin⟩
    · exact absurd h refuse_ne_ok
  · intro hwritten
    obtain ⟨hle, hlt, hin⟩ := hwritten
    refine ⟨n, rest, ⟨hlt, hin⟩, ?_⟩
    rw [if_pos hle]
    exact pure_eq_ok.mpr ⟨rfl, rfl⟩

/-! ## Decoders and their encoders -/

theorem length_le_of_append {front rest : List UInt8} {bound : Nat}
    (h : (front ++ rest).length ≤ bound) : rest.length ≤ bound := by
  rw [List.length_append] at h
  omega

/-- Of inputs of at most `bound` bytes, `decoder` accepts exactly what `encode` writes of the
values that fit, and leaves what follows. -/
def Reads (bound : Nat) (decoder : Decoder α) (fits : α → Prop) (encode : α → List UInt8) :
    Prop :=
  ∀ ⦃input value rest⦄, input.length ≤ bound →
    (decoder input = .ok (value, rest) ↔ fits value ∧ input = encode value ++ rest)

/-- A value under a constructor: `make` is injective on what is written and reaches all that
fits. -/
theorem Reads.map {bound : Nat} {decoder : Decoder α} {fits : α → Prop}
    {encode : α → List UInt8} (h : Reads bound decoder fits encode) {make : α → β}
    {fits' : β → Prop} {encode' : β → List UInt8}
    (hmake : ∀ value, fits value → fits' (make value) ∧ encode' (make value) = encode value)
    (hreach : ∀ made, fits' made → ∃ value, fits value ∧ make value = made) :
    Reads bound (do return make (← decoder)) fits' encode' := by
  intro input made rest hb
  simp only [bind_eq_ok, pure_eq_ok]
  constructor
  · intro hread
    obtain ⟨value, mid, hd, rfl, rfl⟩ := hread
    obtain ⟨hf, rfl⟩ := (h hb).mp hd
    obtain ⟨hf', he⟩ := hmake value hf
    exact ⟨hf', by rw [he]⟩
  · intro hwritten
    obtain ⟨hf', hin⟩ := hwritten
    obtain ⟨value, hf, rfl⟩ := hreach made hf'
    rw [(hmake value hf).2] at hin
    exact ⟨value, rest, (h hb).mpr ⟨hf, hin⟩, rfl, rfl⟩

theorem reads_byte (bound : Nat) : Reads bound byte (fun _ => True) fun b => [b] := by
  intro input b rest _
  simp [byte_eq_ok]

theorem reads_word (bound width : Nat) :
    Reads bound (word width) (· < 1 <<< (8 * width)) (bigEndian width) :=
  fun _ _ _ _ => word_eq_ok

theorem reads_bool (bound : Nat) : Reads bound bool (fun _ => True) fun b => [b.toUInt8] := by
  intro input b rest _
  simp only [bool, bind_eq_ok, byte_eq_ok, true_and, List.singleton_append]
  constructor
  · intro hread
    obtain ⟨found, mid, rfl, h⟩ := hread
    split at h
    · obtain ⟨rfl, rfl⟩ := pure_eq_ok.mp h
      rfl
    · obtain ⟨rfl, rfl⟩ := pure_eq_ok.mp h
      rfl
    · exact absurd h refuse_ne_ok
  · intro h
    subst h
    cases b <;> exact ⟨_, rest, rfl, rfl⟩

theorem reads_nullable {bound : Nat} {decoder : Decoder α} {fits : α → Prop}
    {encode : α → List UInt8} (kind : Kind) (h : Reads bound decoder fits encode) :
    Reads bound (nullable kind decoder) (fun value => ∀ a ∈ value, fits a)
      (encodeNullable encode) := by
  intro input value rest hb
  simp only [nullable, bind_eq_ok, byte_eq_ok]
  constructor
  · intro hread
    obtain ⟨presence, mid, rfl, hp⟩ := hread
    have hmid : mid.length ≤ bound := Nat.le_of_succ_le hb
    split at hp
    · obtain ⟨rfl, rfl⟩ := pure_eq_ok.mp hp
      exact ⟨nofun, rfl⟩
    · obtain ⟨a, left, ha, hr⟩ := bind_eq_ok.mp hp
      obtain ⟨rfl, rfl⟩ := pure_eq_ok.mp hr
      obtain ⟨hf, rfl⟩ := (h hmid).mp ha
      exact ⟨by simpa using hf, rfl⟩
    · exact absurd hp refuse_ne_ok
  · intro hwritten
    obtain ⟨hf, rfl⟩ := hwritten
    cases value with
    | none => exact ⟨0, rest, rfl, rfl⟩
    | some a =>
      have hlen : (encode a ++ rest).length ≤ bound := Nat.le_of_succ_le hb
      exact ⟨1, encode a ++ rest, rfl,
        bind_eq_ok.mpr ⟨a, rest, (h hlen).mpr ⟨hf a rfl, rfl⟩, rfl⟩⟩

theorem utf8_decode_eq_ok {content : List UInt8} {text : String} :
    Utf8.decode content = .ok text ↔ Utf8.encode text = content :=
  ⟨Utf8.encode_of_decode, fun h => h ▸ Utf8.decode_encode text⟩

/-- The check of the length never refuses a string: its bytes are all in the input. -/
theorem reads_text (bound : Nat) : Reads bound (text bound) TextFits encodeText := by
  intro input t rest hb
  simp only [text, bind_eq_ok, count_eq_ok, bytes_eq_ok, Nat.div_one]
  constructor
  · intro hread
    obtain ⟨n, mid, ⟨-, hlt, rfl⟩, content, left, ⟨rfl, rfl⟩, h⟩ := hread
    cases hd : Utf8.decode content with
    | ok decoded =>
      rw [hd] at h
      obtain ⟨rfl, rfl⟩ := pure_eq_ok.mp h
      rw [utf8_decode_eq_ok] at hd
      subst hd
      exact ⟨hlt, by rw [encodeText, List.append_assoc]⟩
    | error fault =>
      rw [hd] at h
      exact absurd h refuse_ne_ok
  · intro hwritten
    obtain ⟨hf, rfl⟩ := hwritten
    have hle : (Utf8.encode t).length ≤ bound := by
      simp only [encodeText, List.length_append] at hb
      omega
    refine ⟨_, _, ⟨hle, hf, by rw [encodeText, List.append_assoc]⟩, _, rest, ⟨rfl, rfl⟩, ?_⟩
    rw [Utf8.decode_encode]
    rfl

theorem length_flatMap_encodeText (texts : List String) :
    8 * texts.length ≤ (texts.flatMap encodeText).length := by
  induction texts with
  | nil => exact Nat.le_refl 0
  | cons t texts ih =>
    simp only [List.flatMap_cons, List.length_append, List.length_cons, length_encodeText]
    omega

theorem textsAfter_eq_ok {bound n : Nat} {done all : Array String} {input rest : List UInt8}
    (hb : input.length ≤ bound) :
    (textsAfter bound n done : Decoder (Array String)) input = .ok (all, rest) ↔
      ∃ more : List String, more.length = n ∧ (∀ t ∈ more, TextFits t) ∧
        input = more.flatMap encodeText ++ rest ∧ all.toList = done.toList ++ more := by
  induction n generalizing done input with
  | zero =>
    rw [textsAfter, pure_eq_ok]
    constructor
    · intro hread
      obtain ⟨rfl, rfl⟩ := hread
      exact ⟨[], by simp⟩
    · intro hwritten
      obtain ⟨more, hn, -, rfl, hall⟩ := hwritten
      obtain rfl := List.eq_nil_of_length_eq_zero hn
      exact ⟨Array.toList_inj.mp (by simpa using hall.symm), rfl⟩
  | succ n ih =>
    rw [textsAfter, bind_eq_ok]
    constructor
    · intro hread
      obtain ⟨t, mid, ht, hmore⟩ := hread
      obtain ⟨hf, rfl⟩ := (reads_text bound hb).mp ht
      have hmid : mid.length ≤ bound := length_le_of_append hb
      obtain ⟨more, rfl, hfs, rfl, hall⟩ := (ih hmid).mp hmore
      refine ⟨t :: more, rfl, List.forall_mem_cons.mpr ⟨hf, hfs⟩, ?_, ?_⟩
      · rw [List.flatMap_cons, List.append_assoc]
      · rw [hall, Array.toList_push, List.append_assoc, List.singleton_append]
    · intro hwritten
      obtain ⟨more, hn, hfs, hin, hall⟩ := hwritten
      cases more with
      | nil => cases hn
      | cons t more =>
        obtain ⟨hf, hfs⟩ := List.forall_mem_cons.mp hfs
        rw [List.flatMap_cons, List.append_assoc] at hin
        subst hin
        have hmid : (more.flatMap encodeText ++ rest).length ≤ bound := length_le_of_append hb
        refine ⟨t, _, (reads_text bound hb).mpr ⟨hf, rfl⟩, (ih hmid).mpr ⟨more, ?_, hfs, rfl, ?_⟩⟩
        · exact Nat.succ.inj hn
        · rw [hall, Array.toList_push, List.append_assoc, List.singleton_append]

/-- The check of the count never refuses a sequence: eight bytes of each string of it are in
the input. -/
theorem reads_texts (bound : Nat) : Reads bound (texts bound) TextsFit encodeTexts := by
  intro input ts rest hb
  simp only [texts, bind_eq_ok, count_eq_ok, pure_eq_ok]
  constructor
  · intro hread
    obtain ⟨n, mid, ⟨-, hlt, rfl⟩, all, left, hall, rfl, rfl⟩ := hread
    have hmid : mid.length ≤ bound := length_le_of_append hb
    obtain ⟨more, rfl, hfs, rfl, hmore⟩ := (textsAfter_eq_ok hmid).mp hall
    rw [List.nil_append] at hmore
    subst hmore
    exact ⟨⟨hlt, hfs⟩, by rw [encodeTexts, List.append_assoc]⟩
  · intro hwritten
    obtain ⟨⟨hlt, hfs⟩, rfl⟩ := hwritten
    rw [encodeTexts, List.append_assoc] at hb ⊢
    have hmid : (ts.flatMap encodeText ++ rest).length ≤ bound := length_le_of_append hb
    have hlen := length_flatMap_encodeText ts
    have hle : ts.length ≤ bound / 8 := by
      rw [List.length_append] at hmid
      omega
    exact ⟨_, _, ⟨hle, hlt, rfl⟩, ts.toArray, rest,
      (textsAfter_eq_ok hmid).mpr ⟨ts, rfl, hfs, rfl, rfl⟩, rfl, rfl⟩

/-! ## Fields -/

theorem reads_payload (body : List UInt8) (kind : Kind) :
    Reads body.length (payload body kind) (fun field => field.kind = kind ∧ field.Fits)
      Field.payload := by
  cases kind with
  | bool =>
    refine (reads_bool _).map (fun _ _ => ⟨⟨rfl, trivial⟩, rfl⟩) ?_
    intro field h
    cases field with
    | bool b => exact ⟨b, trivial, rfl⟩
    | _ => cases h.1
  | byte =>
    refine (reads_byte _).map (fun b _ => ⟨⟨rfl, trivial⟩, ?_⟩) ?_
    · rw [Field.payload, UInt8.toUInt8_toInt8]
    · intro field h
      cases field with
      | byte v => exact ⟨v.toUInt8, trivial, congrArg Field.byte v.toInt8_toUInt8⟩
      | _ => cases h.1
  | short =>
    refine (reads_word _ 2).map (fun n hn => ⟨⟨rfl, trivial⟩, ?_⟩) ?_
    · rw [Field.payload, UInt16.toUInt16_toInt16, UInt16.toNat_ofNat_of_lt' hn]
    · intro field h
      cases field with
      | short v =>
        exact ⟨_, v.toUInt16.toNat_lt, by rw [UInt16.ofNat_toNat, v.toInt16_toUInt16]⟩
      | _ => cases h.1
  | int =>
    refine (reads_word _ 4).map (fun n hn => ⟨⟨rfl, trivial⟩, ?_⟩) ?_
    · rw [Field.payload, UInt32.toUInt32_toInt32, UInt32.toNat_ofNat_of_lt' hn]
    · intro field h
      cases field with
      | int v =>
        exact ⟨_, v.toUInt32.toNat_lt, by rw [UInt32.ofNat_toNat, v.toInt32_toUInt32]⟩
      | _ => cases h.1
  | long =>
    refine (reads_word _ 8).map (fun n hn => ⟨⟨rfl, trivial⟩, ?_⟩) ?_
    · rw [Field.payload, UInt64.toUInt64_toInt64, UInt64.toNat_ofNat_of_lt' hn]
    · intro field h
      cases field with
      | long v =>
        exact ⟨_, v.toUInt64.toNat_lt, by rw [UInt64.ofNat_toNat, v.toInt64_toUInt64]⟩
      | _ => cases h.1
  | float =>
    refine (reads_word _ 4).map (fun n hn => ⟨⟨rfl, trivial⟩, ?_⟩) ?_
    · rw [Field.payload, UInt32.toNat_ofNat_of_lt' hn]
    · intro field h
      cases field with
      | float v => exact ⟨_, v.bits.toNat_lt, by rw [UInt32.ofNat_toNat]⟩
      | _ => cases h.1
  | double =>
    refine (reads_word _ 8).map (fun n hn => ⟨⟨rfl, trivial⟩, ?_⟩) ?_
    · rw [Field.payload, UInt64.toNat_ofNat_of_lt' hn]
    · intro field h
      cases field with
      | double v => exact ⟨_, v.bits.toNat_lt, by rw [UInt64.ofNat_toNat]⟩
      | _ => cases h.1
  | string =>
    refine (reads_nullable _ (reads_text _)).map (fun _ hf => ⟨⟨rfl, hf⟩, rfl⟩) ?_
    intro field h
    cases field with
    | string value => exact ⟨value, h.2, rfl⟩
    | _ => cases h.1
  | timestamp =>
    refine (reads_nullable _ (reads_word _ 8)).map (fun value hn => ⟨⟨rfl, trivial⟩, ?_⟩) ?_
    · cases value with
      | none => rfl
      | some n =>
        simp only [Field.payload, Option.map_some, encodeNullable]
        rw [UInt64.toUInt64_toInt64, UInt64.toNat_ofNat_of_lt' (hn n rfl)]
    · intro field h
      cases field with
      | timestamp value =>
        refine ⟨value.map fun v => v.toUInt64.toNat, ?_, ?_⟩
        · intro n hn
          obtain ⟨v, -, rfl⟩ := Option.map_eq_some_iff.mp hn
          exact v.toUInt64.toNat_lt
        · simp only [Option.map_map, Function.comp_def, UInt64.ofNat_toNat,
            Int64.toInt64_toUInt64, Option.map_id']
      | _ => cases h.1
  | stringList =>
    refine (reads_nullable _ (reads_texts _)).map (fun _ hf => ⟨⟨rfl, hf⟩, rfl⟩) ?_
    intro field h
    cases field with
    | stringList value => exact ⟨value, h.2, rfl⟩
    | _ => cases h.1
  | stringArray =>
    refine (reads_nullable _ (reads_texts _)).map (fun _ hf => ⟨⟨rfl, hf⟩, rfl⟩) ?_
    intro field h
    cases field with
    | stringArray value => exact ⟨value, h.2, rfl⟩
    | _ => cases h.1

end Decoder

/-! ## The whole field -/

theorem Kind.ofTag?_eq_some {tag : UInt8} {kind : Kind} :
    Kind.ofTag? tag = some kind ↔ kind.tag = tag := by
  constructor
  · intro h
    obtain ⟨hlt, -⟩ := List.getElem?_eq_some_iff.mp h
    have htag : tag = UInt8.ofNat tag.toNat := UInt8.ofNat_toNat.symm
    simp only [List.length_cons, List.length_nil] at hlt
    generalize tag.toNat = n at hlt htag
    subst htag
    interval_cases n <;> (cases h; rfl)
  · intro h
    subst h
    exact Kind.ofTag?_tag kind

namespace Field

/-- **Reading is the inverse of writing.** A field and the bytes behind it are read off an
input exactly if the field fits the format and the input is its bytes followed by them. -/
theorem decode_eq_ok {input rest : List UInt8} {field : Field} :
    decode input = .ok (field, rest) ↔ field.Fits ∧ input = field.encode ++ rest := by
  cases input with
  | nil =>
    constructor
    · intro h
      exact absurd (length_lt_of_decode h) (Nat.not_lt_zero _)
    · intro hwritten
      obtain ⟨-, h⟩ := hwritten
      cases h
  | cons tag input =>
    rw [decode_cons]
    have hlen : input.length ≤ (tag :: input).length := Nat.le_succ _
    constructor
    · intro h
      split at h
      · next kind hk =>
        obtain ⟨⟨rfl, hf⟩, rfl⟩ := (Decoder.reads_payload _ kind hlen).mp h
        rw [Kind.ofTag?_eq_some] at hk
        exact ⟨hf, by rw [encode, hk, List.cons_append]⟩
      · cases h
    · intro hwritten
      obtain ⟨hf, hin⟩ := hwritten
      rw [encode, List.cons_append] at hin
      obtain ⟨rfl, rfl⟩ := List.cons.inj hin
      rw [Kind.ofTag?_tag]
      exact (Decoder.reads_payload _ field.kind hlen).mpr ⟨⟨rfl, hf⟩, rfl⟩

end Field

end Parley
