import Entailment.Proofs.Readings
import Mathlib

/-!
# Looking at a run

What a computation shows when its readings stand still is one of the things it can
end with.  Such a run can be evaluated.  Evaluation unfolds functions of the library
by equations that are found in many of its parts, which is why this module, and no
other one, imports all of it.
-/

namespace Entailment.Monitored

variable {ε α γ δ σ : Type}

theorem exists_run (computation : Monitored ε α) :
    ∃ value, (computation.run .zero none).1 = value ∧ computation.Returns value :=
  ⟨_, rfl, returns_run .zero none computation⟩

theorem exists_run_ok {computation : Monitored ε (Except δ α)} (view : α → γ) {seen : γ}
    (run : (computation.run .zero none).1.toOption.map view = some seen) :
    ∃ value, computation.Returns (.ok value) ∧ view value = seen := by
  obtain ⟨result, done, returned⟩ := computation.exists_run
  rw [done] at run
  cases result with
  | error error => cases run
  | ok value => exact ⟨value, returned, Option.some.inj run⟩

theorem exists_run_ok_with {computation : Monitored ε (Except δ α × σ)}
    (view : α → γ) {seen : γ}
    (run : (computation.run .zero none).1.1.toOption.map view = some seen) :
    ∃ value state, computation.Returns (.ok value, state) ∧ view value = seen := by
  obtain ⟨⟨result, state⟩, done, returned⟩ := computation.exists_run
  rw [done] at run
  cases result with
  | error error => cases run
  | ok value => exact ⟨value, state, returned, Option.some.inj run⟩

end Entailment.Monitored
