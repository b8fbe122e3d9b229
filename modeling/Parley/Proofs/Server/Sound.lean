import Parley.Proofs.Server.Trace

/-!
# What holds of a worker throughout

`Worker.Sound` is the invariant of everything that a worker does, up to the end of its service and
beyond: where it stands says where the owner of its connection is, and as long as it goes on
serving, each of its requests so far has got a response within the limit.
-/

namespace Parley

open Transport (Intake)

variable {σ : Type}

/-- The worker goes on with its service. -/
def Serving.IsActive (serving : Serving) : Prop :=
  serving = .reading ∨ ∃ left, serving = .writing left

@[simp] theorem Serving.not_isActive_leaving (status : ServiceStatus) :
    ¬(leaving status).IsActive := by
  rintro (h | ⟨left, h⟩) <;> cases h

@[simp] theorem Serving.not_isActive_done (status : ServiceStatus) : ¬(done status).IsActive := by
  rintro (h | ⟨left, h⟩) <;> cases h

namespace Worker

variable {worker worker' : Worker σ} {move : Move} {bytes : List UInt8} {capacity : Nat}

/-- The worker, its connection and the two threads of this agree. -/
structure Sound (capacity : Nat) (worker : Worker σ) : Prop where
  intake : worker.intake.Sound capacity
  fits : worker.serving.Fits worker.intake.owner
  replied : worker.serving.IsActive →
    ∀ entry ∈ worker.handled, (entry.2.within? worker.intake.max).isSome

theorem sound_quit (h : worker.intake.Sound capacity) (ho : worker.intake.owner = .idle)
    (status : ServiceStatus) : (worker.quit status).Sound capacity where
  intake := h.leave ho
  fits := trivial
  replied hactive := by
    rcases hactive with hs | ⟨left, hs⟩
    · cases hs
    · cases hs

theorem sound_handle (h : worker.intake.Sound capacity) (ho : worker.intake.owner = .idle)
    (hreplied : ∀ entry ∈ worker.handled, (entry.2.within? worker.intake.max).isSome)
    (request : Message) : (worker.handle request).Sound capacity := by
  obtain ⟨reply, next, -, hhandle⟩ := worker.exists_handle request
  rcases hhandle with ⟨response, hwithin, heq⟩ | ⟨-, status, heq⟩
  · rw [heq]
    refine ⟨h, ho, fun _ entry hm => ?_⟩
    rcases List.mem_append.mp hm with hm | hm
    · exact hreplied entry hm
    · rw [List.mem_singleton.mp hm]
      exact Option.isSome_iff_exists.mpr ⟨response, hwithin⟩
  · rw [heq]
    refine sound_quit ?_ ?_ status
    · exact h
    · exact ho

/-- **Everything that a worker does keeps it sound.** -/
theorem Sound.step (h : worker.Sound capacity) (hs : worker.step move = some (worker', bytes)) :
    worker'.Sound capacity := by
  cases turn_of_step h.intake h.fits hs with
  | goes hm hstep hf =>
    refine ⟨h.intake.step hstep, hf, ?_⟩
    rw [h.intake.step_max hstep]
    exact h.replied
  | @told intake report hserving hstep ho =>
    have hsound := h.intake.step hstep
    have hreplied := h.replied (.inl hserving)
    rw [← h.intake.step_max hstep] at hreplied
    match report with
    | .ok none | .error _ =>
      refine sound_quit ?_ ?_ _
      · exact hsound
      · exact ho
    | .ok (some request) =>
      rw [take]
      refine sound_handle ?_ ?_ ?_ request
      · exact hsound
      · exact ho
      · exact hreplied
  | @writes left n hserving hne hn =>
    refine ⟨h.intake, ?_, fun _ => h.replied (.inr ⟨left, hserving⟩)⟩
    have hfits := h.fits
    rw [hserving] at hfits
    exact hfits
  | reads hserving hstep ho =>
    refine ⟨h.intake.step hstep, ho, fun _ => ?_⟩
    rw [h.intake.step_max hstep]
    exact h.replied (.inr ⟨[], hserving⟩)
  | ends hserving hstep ho =>
    refine ⟨h.intake.step hstep, ho, fun hactive => ?_⟩
    rcases hactive with hs | ⟨left, hs⟩
    · cases hs
    · cases hs

theorem Sound.breakOff {failure : Failure} (h : worker.Sound capacity)
    (hb : worker.breakOff failure = some worker') : worker'.Sound capacity := by
  have hfits := h.fits
  unfold Worker.breakOff at hb
  split at hb
  · next hserving =>
    cases hb
    rw [hserving] at hfits
    exact sound_quit h.intake hfits _
  · cases hb

theorem sound_ofConfig? {handler : Handler σ} {state : σ} {config : Config}
    (h : ofConfig? handler state config = some worker) : worker.Sound config.bufferCapacity := by
  obtain ⟨intake, hintake, rfl⟩ := Option.map_eq_some_iff.mp h
  refine ⟨?_, trivial, nofun⟩
  exact (Intake.sound_ofConfig? hintake).read (Intake.ofConfig?_fresh hintake).2

end Worker

end Parley
