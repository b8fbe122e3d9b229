import Parley.Proofs.Field.Extension
import Parley.Proofs.Message.Concatenation

/-!
# Bodies with more bytes behind them

A body that is refused for what is in it is refused for the same however it goes on; a body that is
refused because bytes are missing lacks at least as many as the refusal reports. So a reader that
gets a body piece by piece learns nothing wrong from a refusal, and none of the checks of declared
lengths refuses a body that the bytes reported could not be missing from.

**Theorem (`refusal_lasts`).** The fields in front of the refused one are read again with the longer
body, and the refusal of that field lasts (`Field.lasts_decode`).
-/

namespace Parley

/-- How many bytes are missing, if the error is about that. -/
def MessageError.missing? : MessageError → Option Nat
  | undecodable cause => cause.missing?
  | kindMismatch _ _ _ | exhausted _ _ | invalidTimestamp _ => none

theorem MessageError.missing?_eq_some {error : MessageError} {missing : Nat} :
    error.missing? = some missing ↔ error = .undecodable (.unexpectedEnd missing) := by
  cases error with
  | undecodable cause => cases cause <;> simp [missing?, DecodeError.missing?]
  | _ => simp [missing?]

namespace Message

/-- The induction is along the fields that are read before one is refused. -/
theorem lasts_decodeAfter {done : Array Field} {body : List UInt8} {error : MessageError}
    (h : decodeAfter done body = .error error) (more : List UInt8) :
    Lasts error.missing? more.length error (decodeAfter done (body ++ more)) := by
  fun_induction decodeAfter done body with
  | case1 => cases h
  | case2 done body hne cause hd =>
    cases h
    have hne' : (body ++ more).isEmpty = false := by
      cases body with
      | nil => exact absurd rfl hne
      | cons => rfl
    exact (Field.lasts_decode hd more).lift MessageError.undecodable fun _ =>
      decodeAfter_of_error hne'
  | case3 done body _ field rest hd millis hstray =>
    cases h
    obtain ⟨hfits, rfl⟩ := Field.decode_eq_ok.mp hd
    rw [List.append_assoc, decodeAfter_encode hfits, hstray]
    exact ⟨fun _ => rfl, fun missing hm => by cases hm⟩
  | case4 done body _ field rest hd hstray ih =>
    obtain ⟨hfits, rfl⟩ := Field.decode_eq_ok.mp hd
    rw [List.append_assoc, decodeAfter_encode hfits, hstray]
    exact ih h

/-- **Refusals last.** A body that is refused for another reason than missing bytes is refused for
the same reason whatever is added to it. If bytes are missing, at least one is, and the body stays
refused as long as fewer bytes are added than are reported missing. -/
theorem refusal_lasts {body : List UInt8} {error : MessageError} (h : decode body = .error error)
    (more : List UInt8) :
    ((∀ missing, error ≠ .undecodable (.unexpectedEnd missing)) →
        decode (body ++ more) = .error error) ∧
      ∀ missing, error = .undecodable (.unexpectedEnd missing) →
        1 ≤ missing ∧ (more.length < missing → ∃ other, decode (body ++ more) = .error other) := by
  have hread : decodeAfter #[] body = .error error := by
    rw [decode] at h
    cases hd : decodeAfter #[] body with
    | ok fields => rw [hd] at h; cases h
    | error cause => rw [hd] at h; cases h; rfl
  have hlasts : Lasts error.missing? more.length error (decode (body ++ more)) :=
    (lasts_decodeAfter hread more).lift id fun other hother => by rw [decode, hother]; rfl
  refine ⟨fun hother => hlasts.same ?_, fun missing hm => ?_⟩
  · cases hm : error.missing? with
    | none => rfl
    | some missing => exact absurd (MessageError.missing?_eq_some.mp hm) (hother missing)
  · exact hlasts.missing missing (MessageError.missing?_eq_some.mpr hm)

/-- A list that declares two strings, and of which seven of the missing eight bytes are added: the
bound is lifted to the count, and the string is cut short. An array that declares as many strings as
can be declared, of which the excess is more than can be reported. A string that ends inside a
character, which the byte behind it does not complete. -/
theorem refusal_lasts_declared :
    let two : List UInt8 := [9, 1, 0, 0, 0, 0, 0, 0, 0, 2]
    let most : List UInt8 := [10, 1, 255, 255, 255, 255, 255, 255, 255, 255]
    let cut : List UInt8 := [7, 1, 0, 0, 0, 0, 0, 0, 0, 1, 0xC3]
    (decode two = .error (.undecodable (.unexpectedEnd 8)) ∧
        ∃ other, decode (two ++ [0, 0, 0, 0, 0, 0, 0]) = .error other) ∧
      (decode most = .error (.undecodable (.unexpectedEnd (2 ^ 64 - 1))) ∧
        ∃ other, decode (most ++ [0, 0, 0, 0, 0, 0, 0]) = .error other) ∧
      decode cut = .error (.undecodable (.badText ⟨0, none⟩)) ∧
        decode (cut ++ [0xA9]) = .error (.undecodable (.badText ⟨0, none⟩)) := by
  intro two most cut
  have htwo : decode two = .error (.undecodable (.unexpectedEnd 8)) := by
    simp only [two]
    cbv
  have hmost : decode most = .error (.undecodable (.unexpectedEnd (2 ^ 64 - 1))) := by
    simp only [most]
    cbv
  have hcut : decode cut = .error (.undecodable (.badText ⟨0, none⟩)) := by
    simp only [cut]
    cbv
  exact ⟨⟨htwo, ((refusal_lasts htwo _).2 8 rfl).2 (by decide)⟩,
    ⟨hmost, ((refusal_lasts hmost _).2 _ rfl).2 (by decide)⟩,
    hcut, (refusal_lasts hcut _).1 fun missing hm => by cases hm⟩

end Message

end Parley
