import Parley.Proofs.Server.Service
import Parley.Proofs.Transport.Tracks
import Parley.Server.Worker

/-!
# What a worker can do

A worker takes its turns at its connection and at its socket. `Worker.Turn` lists them: a turn
of the connection's own threads that concerns nobody else, a report that the worker is told, a
part of a response that the socket takes, the next read, and the end of giving up.

What it makes of a request depends on the reply, and there is a lemma for each kind of reply.
-/

namespace Parley

open Transport (Intake Owner)

variable {σ : Type}

/-- Where the owner of a connection is while its worker stands there. -/
def Serving.Fits : Serving → Owner → Prop
  | reading, owner => owner.Wants
  | writing _, owner => owner = .idle
  | leaving _, owner => owner.Leaves
  | done _, owner => owner = .gone

/-- The bytes of a response that are left to be written. -/
def Serving.left : Serving → List UInt8
  | writing left => left
  | reading | leaving _ | done _ => []

namespace Worker

variable {worker worker' : Worker σ} {move : Move} {bytes : List UInt8} {capacity : Nat}

/-- The turns of a worker, with what its socket takes. -/
inductive Turn (worker : Worker σ) : Move → Worker σ → List UInt8 → Prop
  | goes {move : Move} {inner : Transport.Move} {intake : Intake}
      (hm : move.inner? = some inner) (h : worker.intake.step inner = some (intake, none))
      (hf : worker.serving.Fits intake.owner) : Turn worker move { worker with intake } []
  | told {intake : Intake} {report : Report} (hs : worker.serving = .reading)
      (h : worker.intake.step .owner = some (intake, some report)) (ho : intake.owner = .idle) :
    Turn worker .owner (take { worker with intake } report) []
  | writes {left : List UInt8} {n : Nat} (hs : worker.serving = .writing left) (hne : left ≠ [])
      (hn : 0 < n) :
    Turn worker (.push n) { worker with serving := .writing (left.drop n) } (left.take n)
  | reads {intake : Intake} {n : Nat} (hs : worker.serving = .writing [])
      (h : worker.intake.step .read = some (intake, none)) (ho : intake.owner.Wants) :
    Turn worker (.push n) { worker with serving := .reading, intake } []
  | ends {intake : Intake} {status : ServiceStatus} (hs : worker.serving = .leaving status)
      (h : worker.intake.step .owner = some (intake, none)) (ho : intake.owner = .gone) :
    Turn worker .owner { worker with serving := .done status, intake } []

theorem step_of_turn (h : worker.turn = some worker') :
    worker.step .owner = some (worker', []) :=
  Option.map_eq_some_iff.mpr ⟨worker', h, rfl⟩

/-- **Steps are turns.** -/
theorem turn_of_step (hsound : worker.intake.Sound capacity)
    (hf : worker.serving.Fits worker.intake.owner)
    (h : worker.step move = some (worker', bytes)) :
    worker.Turn move worker' bytes := by
  cases move with
  | arrive arrival =>
    obtain ⟨intake, ha, heq⟩ := Option.map_eq_some_iff.mp h
    cases heq
    refine .goes rfl (Intake.step_arrive ha) ?_
    cases Intake.arrives_of_arrive ha <;> exact hf
  | pump =>
    obtain ⟨intake, ht, heq⟩ := Option.map_eq_some_iff.mp h
    cases heq
    refine .goes rfl (Intake.step_pump ht) ?_
    cases Intake.turn_of_pumpTurn ht <;> exact hf
  | owner =>
    obtain ⟨next, ht, heq⟩ := Option.map_eq_some_iff.mp h
    cases heq
    simp only [turn, Option.bind_eq_bind, Option.bind_eq_some_iff, Option.pure_def,
      Option.some.injEq] at ht
    obtain ⟨⟨intake, report⟩, ht, rfl⟩ := ht
    have howner := (Intake.turn_of_ownerTurn hsound.owner hsound.within ht).owner
    have hstep : worker.intake.step .owner = some (intake, report) := ht
    obtain ⟨handler, state, conn, serving, handled⟩ := worker
    cases serving with
    | reading =>
      rcases howner with ⟨-, ⟨rfl, hwants⟩ | ⟨hsome, hidle⟩⟩ | ⟨hleaves, -, -⟩
      · exact .goes rfl hstep hwants
      · obtain ⟨told, rfl⟩ := Option.ne_none_iff_exists'.mp hsome
        exact .told rfl hstep hidle
      · exact absurd hleaves (Transport.Owner.Wants.not_leaves hf)
    | leaving status =>
      rcases howner with ⟨hwants, -⟩ | ⟨-, rfl, hleaves | hgone⟩
      · exact absurd hf hwants.not_leaves
      · have hsame : Turn ⟨handler, state, conn, .leaving status, handled⟩ .owner
            ⟨handler, state, intake, .leaving status, handled⟩ [] := .goes rfl hstep hleaves
        cases ho : intake.owner with
        | gone => rw [ho] at hleaves; cases hleaves
        | idle | reading | ending | leaving | releasing | joining => exact hsame
      · simp only [hgone]
        exact .ends rfl hstep hgone
    | writing | done =>
      have ho : conn.owner = _ := hf
      simp only [ho] at howner
      rcases howner with ⟨hwants, -⟩ | ⟨hleaves, -⟩
      · cases hwants
      · cases hleaves
  | push n =>
    simp only [step, push] at h
    split at h
    · next hs =>
      cases h
      rw [hs] at hf
      have ho : worker.intake.owner = .idle := hf
      have hstep : worker.intake.step .read =
          some ({ worker.intake with owner := .reading .start }, none) := by
        rw [Intake.step, ho]
      exact .reads hs hstep trivial
    · next left hne hs =>
      split at h
      · cases h
      · next hn =>
        cases h
        exact .writes hs hne (Nat.pos_of_ne_zero hn)
    · cases h

section Handle

variable {request response : Message} {text : String} {next : σ}

theorem handle_refusal (worker : Worker σ)
    (h : worker.handler worker.state request = (.refusal text, next)) :
    worker.handle request = quit { worker with
      state := next, handled := worker.handled ++ [(request, .refusal text)] }
      (.dropped (.handler text)) := by
  simp only [handle, h]

theorem handle_crash (worker : Worker σ)
    (h : worker.handler worker.state request = (.crash, next)) :
    worker.handle request = quit { worker with
      state := next, handled := worker.handled ++ [(request, .crash)] } .crashed := by
  simp only [handle, h]

theorem handle_tooLarge (worker : Worker σ)
    (h : worker.handler worker.state request = (.response response, next))
    (hlarge : worker.intake.max.toNat < response.encode.length) :
    worker.handle request = quit { worker with
      state := next, handled := worker.handled ++ [(request, .response response)] }
      (.dropped (.frame (.tooLarge response.encode.length worker.intake.max))) := by
  simp only [handle, h, Message.frame_of_lt hlarge]

theorem handle_answer (worker : Worker σ)
    (h : worker.handler worker.state request = (.response response, next))
    (hfits : response.encode.length ≤ worker.intake.max.toNat) :
    worker.handle request = { worker with
      state := next, handled := worker.handled ++ [(request, .response response)]
      serving := .writing (Frame.encode response.encode) } := by
  simp only [handle, h, Message.frame_of_le hfits]

end Handle

end Worker

end Parley
