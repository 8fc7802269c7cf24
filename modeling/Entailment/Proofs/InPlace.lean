import Entailment.Proofs.Readings
import Mathlib.Tactic.Common

/-!
# Operations in place

An operation on a state is written here as a function to `Except ε (α × σ)`: it
gives a value and the next state, or an error and no state at all.  The same
operation may be carried out in place, on one state that is overwritten step by
step.  Then there is a state after a failure too, with whatever had been written
by that time, and the operation is a function to `Except ε α × σ`.

`committed` forgets the state after a failure.  Two operations are the same when
the committed result of the one in place is the result of the other; that a
failure leaves the state as it was is a property of its own.
-/

namespace Entailment

variable {ε δ α σ : Type}

/-- What an operation in place comes to when the state after a failure is
dropped. -/
def committed : Except ε α × σ → Except ε (α × σ)
  | (.ok value, state) => .ok (value, state)
  | (.error error, _) => .error error

@[simp]
theorem committed_ok (value : α) (state : σ) :
    committed (.ok value, state) = (.ok (value, state) : Except ε (α × σ)) := rfl

@[simp]
theorem committed_error (error : ε) (state : σ) :
    committed (.error error, state) = (.error error : Except ε (α × σ)) := rfl

theorem committed_eq_ok_iff {done : Except ε α × σ} {value : α} {state : σ} :
    committed done = .ok (value, state) ↔ done = (.ok value, state) := by
  rcases done with ⟨_ | _, _⟩ <;> simp

/-- An operation on a watched state fails atomically when the errors it fails with
are among the refusals and leave the state as it was.  `inPlace` is the operation
carried out in place. -/
structure FailsAtomically (before : σ) (isRefusal : ε → Prop)
    (operation : Monitored δ (Except ε (α × σ))) (inPlace : Monitored δ (Except ε α × σ)) :
    Prop where
  same : committed <$> inPlace = operation
  atomic : ∀ error after, inPlace.Returns (.error error, after) → isRefusal error ∧ after = before

/-- What succeeds in place is a result of the operation. -/
theorem returns_of_committed {operation : Monitored δ (Except ε (α × σ))}
    {inPlace : Monitored δ (Except ε α × σ)} (same : committed <$> inPlace = operation)
    {value : α} {after : σ} (returned : inPlace.Returns (.ok value, after)) :
    operation.Returns (.ok (value, after)) := by
  rw [← same, map_eq_pure_bind, Monitored.returns_bind]
  exact ⟨_, returned, rfl⟩

end Entailment
