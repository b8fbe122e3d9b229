import Parley.Proofs.Message.Codec

/-!
# Bodies one behind the other

A body has neither a header nor an end mark: the bytes of two messages, one behind the other, are
the bytes of one message with the fields of both.

**The bound.** The declared lengths of a field are held against all that is left of the body, so
bytes added at the end loosen the check of every field in front of them. A field that has been read
is read again all the same, since the bytes of a well-formed field determine it whatever follows;
and the fields behind it begin with the bytes left, so they meet the bound that they meet alone.

**Theorem (`body_append`).** Behind a body that is read, a body comes to just what it comes to
alone: the same fields or the same error.
-/

namespace Parley

/-- The fields of two messages, one after the other, none of them read. -/
instance : Append Message := ⟨fun x y => { fields := x.fields ++ y.fields }⟩

namespace Message

@[simp] theorem fields_append (x y : Message) : (x ++ y).fields = x.fields ++ y.fields := rfl

theorem encode_append (x y : Message) : (x ++ y).encode = x.encode ++ y.encode := by
  rw [encode, fields_append, Array.toList_append, List.flatMap_append]
  rfl

/-! ## Fields in front -/

theorem decodeAfter_of_error {done : Array Field} {body : List UInt8} {cause : DecodeError}
    (hne : body.isEmpty = false) (h : Field.decode body = .error cause) :
    decodeAfter done body = .error (.undecodable cause) := by
  rw [decodeAfter, hne]
  simp only [Bool.false_eq_true, if_false]
  split
  · next heq => cases h.symm.trans heq; rfl
  · next heq => cases h.symm.trans heq

/-- The fields that were read before are put in front of those that are read, or make no
difference; the induction is along the fields that are taken off the body. -/
theorem decodeAfter_append (before done : Array Field) (body : List UInt8) :
    decodeAfter (before ++ done) body = (decodeAfter done body).map (before ++ ·) := by
  fun_induction decodeAfter done body with
  | case1 done body hempty =>
    obtain rfl := List.isEmpty_iff.mp hempty
    rw [decodeAfter_nil]
    rfl
  | case2 done body hne cause hd =>
    rw [decodeAfter_of_error (by simpa using hne) hd]
    rfl
  | case3 done body _ field rest hd millis hstray =>
    obtain ⟨hfits, rfl⟩ := Field.decode_eq_ok.mp hd
    rw [decodeAfter_encode hfits, hstray]
    rfl
  | case4 done body _ field rest hd hstray ih =>
    obtain ⟨hfits, rfl⟩ := Field.decode_eq_ok.mp hd
    rw [decodeAfter_encode hfits, hstray, ← ih, Array.push_append]

theorem decodeAfter_flatMap_append {fields : List Field}
    (hf : ∀ field ∈ fields, field.WellFormed) (done : Array Field) (rest : List UInt8) :
    decodeAfter done (fields.flatMap Field.encode ++ rest) =
      decodeAfter (done ++ fields.toArray) rest := by
  induction fields generalizing done with
  | nil => simp
  | cons field fields ih =>
    obtain ⟨⟨hfits, hcal⟩, hrest⟩ := List.forall_mem_cons.mp hf
    rw [List.flatMap_cons, List.append_assoc, decodeAfter_encode hfits,
      strayTimestamp?_eq_none.mpr hcal]
    simp only [ih hrest]
    congr 1
    simp

/-! ## Bodies -/

/-- What is behind a body that is read comes to what it comes to alone. -/
theorem decode_append {front : List UInt8} {x : Message} (h : decode front = .ok x)
    (back : List UInt8) : decode (front ++ back) = (decode back).map (x ++ ·) := by
  obtain ⟨-, hwf, rfl⟩ := decode_eq_ok.mp h
  have hfields : ∀ field ∈ x.fields.toList, field.WellFormed :=
    fun field hm => hwf field (Array.mem_toList_iff.mp hm)
  rw [decode, encode, decodeAfter_flatMap_append hfields, Array.empty_append, Array.toArray_toList]
  have hback := decodeAfter_append x.fields #[] back
  rw [Array.append_empty] at hback
  rw [hback, decode]
  cases decodeAfter #[] back <;> rfl

/-- **Bodies can be put one behind the other.** Behind a body that is read, what is read is read
as it is alone, and what is refused is refused for the same reason, in the same words and numbers,
whichever fields are in front. And the bytes of two messages one behind the other are those of the
message that has the fields of both. -/
theorem body_append (front back : List UInt8) :
    (∀ x, decode front = .ok x →
      (∀ y, decode back = .ok y →
        decode (front ++ back) = .ok { fields := x.fields ++ y.fields, cursor := 0 }) ∧
      ∀ error, decode back = .error error → decode (front ++ back) = .error error) ∧
      ∀ x y : Message,
        encode { fields := x.fields ++ y.fields } = x.encode ++ y.encode := by
  refine ⟨fun x hx => ⟨fun y hy => ?_, fun error herror => ?_⟩, encode_append⟩
  · rw [decode_append hx, hy]
    rfl
  · rw [decode_append hx, herror]
    rfl

/-- Behind two null values a body of a boolean and a null list is read as it is alone, and one whose
string is cut short lacks as many bytes as it does alone. -/
theorem body_append_cut_short :
    let front : Message := { fields := #[.string none, .timestamp none] }
    let back : Message := { fields := #[.bool true, .stringList none] }
    let both : Message := { fields := front.fields ++ back.fields }
    let cut : List UInt8 := [0, 1, 7, 1, 0, 0, 0, 0, 0, 0, 0, 4, 0x61, 0x62]
    both.encode = front.encode ++ back.encode ∧
      decode (front.encode ++ back.encode) = .ok both ∧
      decode cut = .error (.undecodable (.unexpectedEnd 2)) ∧
      decode (front.encode ++ cut) = .error (.undecodable (.unexpectedEnd 2)) := by
  intro front back both cut
  have hfront : decode front.encode = .ok front := by cbv
  have hback : decode back.encode = .ok back := by cbv
  have hcut : decode cut = .error (.undecodable (.unexpectedEnd 2)) := by cbv
  refine ⟨(body_append [] []).2 front back, ?_, hcut, ?_⟩
  · exact ((body_append front.encode back.encode).1 front hfront).1 back hback
  · exact ((body_append front.encode cut).1 front hfront).2 _ hcut

end Message

end Parley
