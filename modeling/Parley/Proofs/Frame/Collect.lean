import Parley.Proofs.Frame.Cut

/-!
# Frames until something else comes

`collect` reads frames from a whole stream up to the first outcome that is none: a clean end, a
stream that breaks off, or a body over the limit. It says what was read and which bytes are left
behind what was used.

**Frames of any bodies** (`collect_within`, `collect_over`). Behind the frames of bodies within
the limit the rest is read as if they had not been there. The first body over the limit ends the
reading: its header is used, and the body itself and all that follows is left.
-/

namespace Parley.Frame

variable {max : UInt32}

/-- What reading frames up to the first outcome that is none comes to, and the bytes left. -/
def collect (max : UInt32) (stream : List UInt8) : List Outcome × List UInt8 :=
  match _h : parse max stream with
  | (.body body, rest) =>
    let (outcomes, left) := collect max rest
    (.body body :: outcomes, left)
  | (outcome, rest) => ([outcome], rest)
termination_by stream.length
decreasing_by exact length_lt_of_parse _h

/-- The outcome is a body. -/
def Outcome.IsBody : Outcome → Prop
  | .body _ => True
  | .ended | .error _ => False

theorem collect_of_body {stream body rest : List UInt8} (h : Cut max stream (.body body) rest) :
    collect max stream = (.body body :: (collect max rest).1, (collect max rest).2) := by
  have hparse := parse_of_cut h
  rw [collect]
  split
  · next hb => rw [hparse] at hb; cases hb; rfl
  · next hnot hb => rw [hparse] at hb; cases hb; exact absurd rfl (hnot body)

theorem collect_of_not_body {stream rest : List UInt8} {outcome : Outcome}
    (h : Cut max stream outcome rest) (hnot : ¬outcome.IsBody) :
    collect max stream = ([outcome], rest) := by
  have hparse := parse_of_cut h
  rw [collect]
  split
  · next hb => rw [hparse] at hb; cases hb; exact absurd trivial hnot
  · next hb => rw [hparse] at hb; cases hb; rfl

@[simp] theorem collect_nil : collect max [] = ([.ended], []) :=
  collect_of_not_body .ended id

theorem collect_within {bodies : List (List UInt8)}
    (h : ∀ body ∈ bodies, body.length ≤ max.toNat) (rest : List UInt8) :
    collect max (bodies.flatMap encode ++ rest) =
      (bodies.map .body ++ (collect max rest).1, (collect max rest).2) := by
  induction bodies with
  | nil => rfl
  | cons body bodies ih =>
    have hbody : body.length ≤ max.toNat := h body List.mem_cons_self
    have hrest := ih fun body hb => h body (List.mem_cons_of_mem _ hb)
    rw [List.flatMap_cons, List.append_assoc, collect_of_body (.frame hbody _), hrest]
    rfl

theorem collect_over {body : List UInt8} (hs : body.length < UInt32.size)
    (h : max.toNat < body.length) (rest : List UInt8) :
    collect max (encode body ++ rest) = ([.error (.tooLarge body.length max)], body ++ rest) := by
  rw [encode, List.append_assoc]
  exact collect_of_not_body (.tooLarge hs h _) id

end Parley.Frame
