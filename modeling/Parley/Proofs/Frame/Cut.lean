import Parley.Frame.Assembly

/-!
# Cutting a stream into frames

`Cut` lists the ways in which a stream can begin and says what each uses up. `parse` computes
it from a whole stream (`parse_eq_iff`), and an `Assembly` from pieces of any size.

**What more bytes can change** (`Outcome.IsEnd`). That the stream breaks off is an outcome only
because it has ended; with more bytes it would be another one. All other outcomes stay what
they are, whatever follows (`Cut.append`).

**Assemblies** (`Assembly.receive_piece`, `Assembly.cut_bytes`). As long as pieces do not
complete the frame, the assembly holds their bytes; the piece that does gives the outcome of
cutting them all, and the end of the source gives that of a stream that breaks off there.
-/

namespace Parley.Frame

/-- The stream breaks off, be it before the frame or inside it. -/
def Outcome.IsEnd : Outcome → Prop
  | .ended | .error (.truncated ..) => True
  | .body _ | .error (.tooLarge ..) | .error (.failed _) => False

theorem Outcome.not_isEnd_body {body : List UInt8} : ¬(Outcome.body body).IsEnd := id

theorem Outcome.not_isEnd_tooLarge {size : Nat} {max : UInt32} :
    ¬(Outcome.error (.tooLarge size max)).IsEnd := id

/-- How a stream begins: its next outcome, and what is left behind the bytes used. -/
inductive Cut (max : UInt32) : (stream : List UInt8) → Outcome → (rest : List UInt8) → Prop
  | ended : Cut max [] .ended []
  | shortHeader {got : List UInt8} (hne : got ≠ []) (h : got.length < headerSize) :
    Cut max got (.error (.truncated got.length headerSize)) []
  | tooLarge {size : Nat} (hs : size < UInt32.size) (h : max.toNat < size) (rest : List UInt8) :
    Cut max (bigEndian headerSize size ++ rest) (.error (.tooLarge size max)) rest
  | shortBody {size : Nat} {got : List UInt8} (hs : size ≤ max.toNat) (h : got.length < size) :
    Cut max (bigEndian headerSize size ++ got) (.error (.truncated got.length size)) []
  | frame {body : List UInt8} (h : body.length ≤ max.toNat) (rest : List UInt8) :
    Cut max (encode body ++ rest) (.body body) rest

/-! ## Whole streams -/

/-- A complete header is read back, and decides. -/
theorem parse_header (max : UInt32) {size : Nat} (hs : size < UInt32.size)
    (rest : List UInt8) :
    parse max (bigEndian headerSize size ++ rest) =
      if max.toNat < size then (.error (.tooLarge size max), rest)
      else if rest.length < size then (.error (.truncated rest.length size), [])
      else (.body (rest.take size), rest.drop size) := by
  have hlen := length_bigEndian headerSize size
  have hread : ofBigEndian (bigEndian headerSize size) = size := ofBigEndian_bigEndian hs
  unfold parse
  rw [if_neg (by simp [bigEndian, headerSize]),
    if_neg (by rw [List.length_append, hlen]; omega)]
  rw [List.take_left' hlen, List.drop_left' hlen, hread]

theorem parse_of_cut {max : UInt32} {stream rest : List UInt8} {outcome : Outcome}
    (h : Cut max stream outcome rest) : parse max stream = (outcome, rest) := by
  have hmax : max.toNat < UInt32.size := max.toNat_lt
  cases h with
  | ended => rfl
  | shortHeader hne h =>
    unfold parse
    rw [if_neg (by simpa using hne), if_pos h]
  | tooLarge hs h =>
    rw [parse_header max hs, if_pos h]
  | shortBody hs h =>
    rw [parse_header max (by omega), if_neg (by omega), if_pos h]
  | frame h =>
    rw [encode, List.append_assoc, parse_header max (by omega), if_neg (by omega),
      if_neg (by rw [List.length_append]; omega), List.take_left, List.drop_left]

theorem cut_parse (max : UInt32) (stream : List UInt8) :
    Cut max stream (parse max stream).1 (parse max stream).2 := by
  by_cases hne : stream = []
  · subst hne
    exact .ended
  by_cases hshort : stream.length < headerSize
  · rw [parse_of_cut (.shortHeader hne hshort)]
    exact .shortHeader hne hshort
  have hlen : (stream.take headerSize).length = headerSize := by
    rw [List.length_take]
    omega
  have hs : ofBigEndian (stream.take headerSize) < UInt32.size := by
    have := ofBigEndian_lt (stream.take headerSize)
    rwa [hlen] at this
  have hheader := bigEndian_ofBigEndian (stream.take headerSize)
  rw [hlen] at hheader
  generalize ofBigEndian (stream.take headerSize) = size at hs hheader
  obtain ⟨rest, rfl⟩ : ∃ rest, stream = bigEndian headerSize size ++ rest :=
    ⟨stream.drop headerSize, by rw [hheader, List.take_append_drop]⟩
  rw [parse_header max hs]
  by_cases hlarge : max.toNat < size
  · rw [if_pos hlarge]
    exact .tooLarge hs hlarge rest
  rw [if_neg hlarge]
  by_cases hbody : rest.length < size
  · rw [if_pos hbody]
    exact .shortBody (by omega) hbody
  rw [if_neg hbody]
  have hsize : (rest.take size).length = size := by
    rw [List.length_take]
    omega
  have hframe : bigEndian headerSize size ++ rest = encode (rest.take size) ++ rest.drop size := by
    rw [encode, hsize, List.append_assoc, List.take_append_drop]
  rw [hframe]
  exact .frame (by omega) _

theorem exists_cut (max : UInt32) (stream : List UInt8) :
    ∃ outcome rest, Cut max stream outcome rest :=
  ⟨_, _, cut_parse max stream⟩

/-- **Parsing is cutting.** -/
theorem parse_eq_iff {max : UInt32} {stream rest : List UInt8} {outcome : Outcome} :
    parse max stream = (outcome, rest) ↔ Cut max stream outcome rest := by
  refine ⟨fun h => ?_, parse_of_cut⟩
  have hcut := cut_parse max stream
  rwa [h] at hcut

theorem Cut.unique {max : UInt32} {stream rest rest' : List UInt8} {outcome outcome' : Outcome}
    (h : Cut max stream outcome rest) (h' : Cut max stream outcome' rest') :
    outcome = outcome' ∧ rest = rest' := by
  have heq := (parse_of_cut h).symm.trans (parse_of_cut h')
  exact Prod.mk.inj heq

/-- What follows a frame or a refused header makes no difference. -/
theorem Cut.append {max : UInt32} {stream rest : List UInt8} {outcome : Outcome}
    (h : Cut max stream outcome rest) (hend : ¬outcome.IsEnd) (more : List UInt8) :
    Cut max (stream ++ more) outcome (rest ++ more) := by
  cases h with
  | ended | shortHeader | shortBody => exact absurd trivial hend
  | tooLarge hs h =>
    rw [List.append_assoc]
    exact .tooLarge hs h _
  | frame h =>
    rw [List.append_assoc]
    exact .frame h _

theorem Cut.rest_eq_nil {max : UInt32} {stream rest : List UInt8} {outcome : Outcome}
    (h : Cut max stream outcome rest) (hend : outcome.IsEnd) : rest = [] := by
  cases h with
  | ended | shortHeader | shortBody => rfl
  | tooLarge | frame => cases hend

theorem Cut.eq_nil_of_ended {max : UInt32} {stream rest : List UInt8}
    (h : Cut max stream .ended rest) : stream = [] := by
  cases h
  rfl

theorem Cut.eq_encode_of_body {max : UInt32} {stream body rest : List UInt8}
    (h : Cut max stream (.body body) rest) :
    body.length ≤ max.toNat ∧ stream = encode body ++ rest := by
  cases h with
  | frame hle => exact ⟨hle, rfl⟩

/-! ## Frames put together from pieces -/

namespace Assembly

variable {max : UInt32} {assembly : Assembly}

/-- The bytes of the frame that have come. -/
def bytes : Assembly → List UInt8
  | header got _ => got.toList
  | body size got _ => bigEndian headerSize size ++ got.toList

/-- The size that a complete header announces is within the limit. -/
def Within (max : UInt32) : Assembly → Prop
  | header .. => True
  | body size .. => size ≤ max.toNat

theorem within_start : start.Within max := trivial

/-- What has come of an incomplete frame would break off. -/
theorem cut_bytes (hw : assembly.Within max) :
    ∃ outcome, outcome.IsEnd ∧ Cut max assembly.bytes outcome [] ∧
      assembly.receive max (.ok []) = .done outcome := by
  cases assembly with
  | header got short =>
    by_cases hempty : got = #[]
    · subst hempty
      exact ⟨.ended, trivial, .ended, rfl⟩
    · have hcut : Cut max got.toList (.error (.truncated got.toList.length headerSize)) [] :=
        .shortHeader (by simpa using hempty) (by simpa using short)
      rw [Array.length_toList] at hcut
      exact ⟨.error (.truncated got.size headerSize), trivial, hcut, by simp [receive, hempty]⟩
  | body size got short =>
    have hcut : Cut max (bigEndian headerSize size ++ got.toList)
        (.error (.truncated got.toList.length size)) [] := .shortBody hw (by simpa using short)
    rw [Array.length_toList] at hcut
    exact ⟨.error (.truncated got.size size), trivial, hcut, rfl⟩

/-- A complete header is followed by the body, refused, or all there is. -/
theorem announce_cut (max : UInt32) {size : Nat} (hs : size < UInt32.size) :
    (∃ next, announce max size = .more next ∧ next.Within max ∧
        next.bytes = bigEndian headerSize size) ∨
      ∃ outcome, announce max size = .done outcome ∧ ¬outcome.IsEnd ∧
        Cut max (bigEndian headerSize size) outcome [] := by
  unfold announce
  by_cases hlarge : max.toNat < size
  · rw [if_pos hlarge]
    have hcut := Cut.tooLarge hs hlarge []
    rw [List.append_nil] at hcut
    exact Or.inr ⟨_, rfl, id, hcut⟩
  rw [if_neg hlarge]
  by_cases hpos : 0 < size
  · rw [dif_pos hpos]
    exact Or.inl ⟨_, rfl, Nat.le_of_not_lt hlarge, List.append_nil _⟩
  · rw [dif_neg hpos]
    obtain rfl : size = 0 := by omega
    have hcut : Cut max (encode [] ++ []) (.body []) [] := .frame (Nat.zero_le _) []
    exact Or.inr ⟨_, rfl, id, hcut⟩

theorem size_addPiece (got : Array UInt8) (piece : List UInt8) :
    (got ++ piece).size = got.size + piece.length := by
  rw [← Array.length_toList, Array.toList_appendList, List.length_append, Array.length_toList]

/-- **Pieces come together.** A piece is added to the frame, or completes it. -/
theorem receive_piece (hw : assembly.Within max) {piece : List UInt8} (hne : piece ≠ [])
    (hle : piece.length ≤ assembly.demand) :
    (∃ next, assembly.receive max (.ok piece) = .more next ∧ next.Within max ∧
        next.bytes = assembly.bytes ++ piece) ∨
      ∃ outcome, assembly.receive max (.ok piece) = .done outcome ∧ ¬outcome.IsEnd ∧
        Cut max (assembly.bytes ++ piece) outcome [] := by
  obtain ⟨byte, more, rfl⟩ := List.exists_cons_of_ne_nil hne
  cases assembly with
  | header got short =>
    simp only [receive]
    by_cases hshort : (got ++ byte :: more).size < headerSize
    · rw [dif_pos hshort]
      exact Or.inl ⟨_, rfl, trivial, Array.toList_appendList⟩
    · rw [dif_neg hshort]
      -- The header is just complete: no piece is longer than what is asked for.
      have hlen : (got ++ byte :: more).toList.length = headerSize := by
        simp only [demand] at hle
        simp only [size_addPiece] at hshort
        simp only [Array.toList_appendList, List.length_append, Array.length_toList]
        omega
      have hs := ofBigEndian_lt (got ++ byte :: more).toList
      have hheader := bigEndian_ofBigEndian (got ++ byte :: more).toList
      rw [hlen] at hs hheader
      have hall : bigEndian headerSize (ofBigEndian (got ++ byte :: more).toList) =
          got.toList ++ byte :: more := hheader.trans Array.toList_appendList
      have hcut := announce_cut max hs
      rwa [hall] at hcut
  | body size got short =>
    simp only [receive]
    by_cases hshort : (got ++ byte :: more).size < size
    · rw [dif_pos hshort]
      refine Or.inl ⟨_, rfl, hw, ?_⟩
      rw [bytes, bytes, Array.toList_appendList, List.append_assoc]
    · rw [dif_neg hshort]
      have hlen : (got.toList ++ byte :: more).length = size := by
        simp only [demand] at hle
        simp only [size_addPiece] at hshort
        simp only [List.length_append, Array.length_toList]
        omega
      refine Or.inr ⟨_, rfl, id, ?_⟩
      have hcut : Cut max (encode (got.toList ++ byte :: more) ++ [])
          (.body (got.toList ++ byte :: more)) [] := .frame (hlen ▸ hw) []
      rw [encode, hlen, List.append_nil] at hcut
      rwa [bytes, List.append_assoc, Array.toList_appendList]

end Assembly

end Parley.Frame
