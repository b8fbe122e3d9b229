/-!
# Goals that cannot be missed

Threads take their turns in any order, and some of them wait. `Inevitable` holds of a goal that
their steps lead to, however they are chosen: while it has not been reached some step can be made,
and none of them leads away from it.

**Why it is reached** (`inevitable_of_weight`). Every step makes the state lighter, and no state
on the way is stuck.
-/

namespace Parley

/-- The goal is reached, whichever steps are taken. -/
inductive Inevitable {α : Type} (step : α → α → Prop) (goal : α → Prop) : α → Prop
  | now {state : α} (h : goal state) : Inevitable step goal state
  | later {state : α} (can : ∃ next, step state next)
    (all : ∀ next, step state next → Inevitable step goal next) : Inevitable step goal state

theorem Inevitable.trans {α : Type} {step : α → α → Prop} {mid goal : α → Prop} {state : α}
    (h : Inevitable step mid state) (hmid : ∀ state, mid state → Inevitable step goal state) :
    Inevitable step goal state := by
  induction h with
  | now h => exact hmid _ h
  | later can _ ih => exact .later can ih

theorem Inevitable.mono {α : Type} {step : α → α → Prop} {goal goal' : α → Prop} {state : α}
    (h : Inevitable step goal state) (hgoal : ∀ state, goal state → goal' state) :
    Inevitable step goal' state :=
  h.trans fun state hs => .now (hgoal state hs)

/-- What every step keeps still holds where the goal is reached. -/
theorem Inevitable.and_inv {α : Type} {step : α → α → Prop} {goal : α → Prop} {state : α}
    (h : Inevitable step goal state) (inv : α → Prop)
    (hstep : ∀ {state next}, inv state → step state next → inv next) (hi : inv state) :
    Inevitable step (fun state => goal state ∧ inv state) state := by
  induction h with
  | now h => exact .now ⟨h, hi⟩
  | later can _ ih => exact .later can fun next hnext => ih next hnext (hstep hi hnext)

/-- What is inevitable in one system is so in another, if this can go on whenever that one can and
each of its steps either follows one of that or leads to where the goal is inevitable anyway. -/
theorem Inevitable.lift {α β : Type} {step : α → α → Prop} {goal : α → Prop}
    {step' : β → β → Prop} {goal' : β → Prop} (related : α → β → Prop)
    (hgoal : ∀ {a b}, related a b → goal a → Inevitable step' goal' b)
    (hcan : ∀ {a b}, related a b → (∃ next, step a next) → ∃ next, step' b next)
    (hall : ∀ {a b next'}, related a b → step' b next' →
      (∃ next, step a next ∧ related next next') ∨ Inevitable step' goal' next')
    {a : α} {b : β} (h : Inevitable step goal a) (hr : related a b) :
    Inevitable step' goal' b := by
  induction h generalizing b with
  | now h => exact hgoal hr h
  | later can _ ih =>
    refine .later (hcan hr can) fun next' hnext' => ?_
    rcases hall hr hnext' with ⟨next, hnext, hr⟩ | hinevitable
    · exact ih next hnext hr
    · exact hinevitable

/-- A goal is inevitable if the states on the way to it can go on and get lighter. -/
theorem inevitable_of_weight {α : Type} {step : α → α → Prop} {goal : α → Prop}
    (weight : α → Nat) (inv : α → Prop)
    (hcan : ∀ {state}, inv state → goal state ∨ ∃ next, step state next)
    (hstep : ∀ {state next}, inv state → step state next →
      goal next ∨ inv next ∧ weight next < weight state)
    {state : α} (h : inv state) : Inevitable step goal state := by
  generalize hw : weight state = w
  induction w using Nat.strongRecOn generalizing state with
  | ind w ih =>
    rcases hcan h with hgoal | hnext
    · exact .now hgoal
    refine .later hnext fun next hnext => ?_
    rcases hstep h hnext with hgoal | ⟨hinv, hlt⟩
    · exact .now hgoal
    · exact ih (weight next) (hw ▸ hlt) hinv rfl

end Parley
