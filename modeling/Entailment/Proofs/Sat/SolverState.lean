import Entailment.Proofs.Sat.SearchDecides
import Entailment.Sat.Solver

/-!
# What the state of a solver stands for

The rows of a solver represent a partial assignment: a variable has the value in
the second row if it is marked in the first one.  Values that were left behind are
not marked, so they stand for nothing.

A solver grows when open variables get values and go on the trail.  Backtracking to
the length of the trail before the growth gives back the marks and the trail as they
were, and with them the assignment, though not the values that nothing stands for.
-/

namespace Entailment.Sat

namespace Solver

variable {solver before middle after : Solver} {assignment : Assignment} {literal : Literal Nat}

/-- The value of a variable. -/
def value? (solver : Solver) (v : Nat) : Option Bool :=
  match solver.assigned[v]? with
  | some true => solver.values[v]?
  | _ => none

/-- The rows of a solver have a place for each variable within the limit, and its
value. -/
structure Represents (solver : Solver) (assignment : Assignment) : Prop where
  assignedSize : solver.assigned.size = assignment.limit + 1
  valuesSize : solver.values.size = assignment.limit + 1
  value : ∀ v ≤ assignment.limit, assignment.values[v]? = solver.value? v

/-- After loading a problem no variable has a value. -/
theorem represents_load (problem : Dimacs.Problem) (solver : Solver) :
    (solver.load problem).Represents (.start problem.variableCount) := by
  refine ⟨by simp [load, Assignment.start], by simp [load, Assignment.start], fun v within => ?_⟩
  have inside : v < problem.variableCount + 1 := Nat.lt_succ_of_le within
  simp [Assignment.start, value?, load, inside]

/-- What a solver has in the place of a variable within the limit. -/
theorem Represents.exists_place (represents : solver.Represents assignment) {v : Nat}
    (within : v ≤ assignment.limit) :
    ∃ isAssigned value, solver.assigned[v]? = some isAssigned ∧ solver.values[v]? = some value ∧
      assignment.values[v]? = if isAssigned then some value else none := by
  have assignedInside : v < solver.assigned.size := by
    rw [represents.assignedSize]
    exact Nat.lt_succ_of_le within
  have valuesInside : v < solver.values.size := by
    rw [represents.valuesSize]
    exact Nat.lt_succ_of_le within
  refine ⟨_, _, Array.getElem?_eq_getElem assignedInside,
    Array.getElem?_eq_getElem valuesInside, ?_⟩
  rw [represents.value v within, value?, Array.getElem?_eq_getElem assignedInside,
    Array.getElem?_eq_getElem valuesInside]
  cases solver.assigned[v] with
  | true => rfl
  | false => rfl

/-- A literal has the same value for a solver and for the assignment that it
represents, and the same variables are out of reach. -/
theorem Represents.evaluate (represents : solver.Represents assignment) (literal : Literal Nat) :
    solver.evaluate literal = assignment.evaluate literal := by
  by_cases within : literal.atom ≤ assignment.limit
  · obtain ⟨isAssigned, value, marked, valued, isValue⟩ := represents.exists_place within
    rw [Assignment.evaluate, if_neg (Nat.not_lt.mpr within), isValue]
    cases isAssigned with
    | true => simp only [Solver.evaluate, marked, valued, if_true, Option.map_some]
    | false => simp only [Solver.evaluate, marked, Bool.false_eq_true, if_false, Option.map_none]
  · have beyond : assignment.limit < literal.atom := Nat.lt_of_not_le within
    have unmarked : solver.assigned[literal.atom]? = none := by
      rw [Array.getElem?_eq_none_iff, represents.assignedSize]
      exact beyond
    simp only [Solver.evaluate, unmarked, Assignment.evaluate, if_pos beyond]

/-! ## Growing and going back -/

/-- A solver has given values to open variables, which are on top of its trail. -/
structure GrowsTo (before after : Solver) : Prop where
  clauses : after.clauses = before.clauses
  added : ∃ added, after.trail = added ++ before.trail ∧
    (∀ v ∈ added, before.assigned[v]? = some false) ∧
    ∀ v : Nat, after.assigned[v]? = if v ∈ added then some true else before.assigned[v]?
  valuesSize : after.values.size = before.values.size
  values : ∀ v : Nat, before.assigned[v]? = some true → after.values[v]? = before.values[v]?

/-- A solver is again what it was, but for its decisions and the values of open
variables. -/
structure ReturnsTo (after before : Solver) : Prop where
  clauses : after.clauses = before.clauses
  trail : after.trail = before.trail
  assigned : after.assigned = before.assigned
  valuesSize : after.values.size = before.values.size
  values : ∀ v : Nat, before.assigned[v]? = some true → after.values[v]? = before.values[v]?

theorem ReturnsTo.growsTo (returns : after.ReturnsTo before) : before.GrowsTo after :=
  ⟨returns.clauses, ⟨[], returns.trail, by simp, by simp [returns.assigned]⟩, returns.valuesSize,
    returns.values⟩

theorem GrowsTo.refl (solver : Solver) : solver.GrowsTo solver :=
  ReturnsTo.growsTo ⟨rfl, rfl, rfl, rfl, fun _ _ => rfl⟩

theorem GrowsTo.trans (first : before.GrowsTo middle) (second : middle.GrowsTo after) :
    before.GrowsTo after := by
  obtain ⟨early, earlyTrail, earlyOpen, earlyAssigned⟩ := first.added
  obtain ⟨late, lateTrail, lateOpen, lateAssigned⟩ := second.added
  refine ⟨second.clauses.trans first.clauses, ⟨late ++ early, ?_, ?_, ?_⟩,
    second.valuesSize.trans first.valuesSize, ?_⟩
  · rw [lateTrail, earlyTrail, List.append_assoc]
  · intro v mem
    rcases List.mem_append.mp mem with isLate | isEarly
    · have openInMiddle := lateOpen v isLate
      rw [earlyAssigned] at openInMiddle
      split at openInMiddle
      · cases openInMiddle
      · exact openInMiddle
    · exact earlyOpen v isEarly
  · intro v
    rw [lateAssigned, earlyAssigned]
    by_cases isLate : v ∈ late <;> simp [isLate]
  · intro v isAssigned
    have stillAssigned : middle.assigned[v]? = some true := by
      rw [earlyAssigned]
      split
      · rfl
      · exact isAssigned
    rw [second.values v stillAssigned, first.values v isAssigned]

/-- Clearing marks one after the other. -/
theorem getElem?_foldl_clear (trail : List Nat) (assigned : Array Bool) (v : Nat) :
    (trail.foldl (fun assigned v => assigned.setIfInBounds v false) assigned)[v]? =
      if v ∈ trail then assigned[v]?.map (fun _ => false) else assigned[v]? := by
  induction trail generalizing assigned with
  | nil => simp
  | cons first rest ih =>
      rw [List.foldl_cons, ih, Array.getElem?_setIfInBounds]
      by_cases isFirst : first = v
      · subst isFirst
        by_cases inside : first < assigned.size <;> simp [inside]
      · simp [isFirst, Ne.symm isFirst]

/-- Backtracking to the trail of before takes every later assignment back. -/
theorem GrowsTo.backtrack (grows : before.GrowsTo after) :
    (after.backtrack before.trail.length).ReturnsTo before := by
  obtain ⟨added, isTrail, wereOpen, isAssigned⟩ := grows.added
  have excess : after.trail.length - before.trail.length = added.length := by
    rw [isTrail, List.length_append, Nat.add_sub_cancel]
  refine ⟨grows.clauses, ?_, ?_, grows.valuesSize, grows.values⟩
  · simp only [Solver.backtrack, excess]
    rw [isTrail, List.drop_left]
  · apply Array.ext_getElem?
    intro v
    simp only [Solver.backtrack, excess]
    rw [isTrail, List.take_left, getElem?_foldl_clear, isAssigned]
    split
    · rename_i mem
      rw [wereOpen v mem]
      rfl
    · rfl

/-- Values that nothing stands for do not count. -/
theorem ReturnsTo.represents (returns : after.ReturnsTo before)
    (represents : before.Represents assignment) : after.Represents assignment := by
  refine ⟨by rw [returns.assigned, represents.assignedSize],
    by rw [returns.valuesSize, represents.valuesSize], fun v within => ?_⟩
  rw [represents.value v within, value?, value?, returns.assigned]
  split
  · rename_i isAssigned
    rw [returns.values v isAssigned]
  · rfl

/-! ## Assigning a literal -/

/-- A solver has come to represent another assignment by growing. -/
structure Follows (solver : Solver) (assignment : Assignment) (after : Solver) : Prop where
  represents : after.Represents assignment
  grows : solver.GrowsTo after
  decisions : after.decisions = solver.decisions

theorem Represents.follows (represents : solver.Represents assignment) :
    solver.Follows assignment solver :=
  ⟨represents, .refl solver, rfl⟩

theorem Follows.trans {later : Assignment} (first : before.Follows assignment middle)
    (second : middle.Follows later after) : before.Follows later after :=
  ⟨second.represents, first.grows.trans second.grows, second.decisions.trans first.decisions⟩

/-- An open literal within the limit is made true in place. -/
theorem Represents.assign (represents : solver.Represents assignment)
    (within : literal.atom ≤ assignment.limit)
    (isOpen : assignment.isAssigned literal.atom = false) :
    ∃ after, solver.assign literal = .ok after ∧
      solver.Follows (assignment.assign literal) after := by
  obtain ⟨isAssigned, value, marked, valued, isValue⟩ := represents.exists_place within
  have inside := (Array.getElem?_eq_some_iff.mp marked).1
  have valuesInside := (Array.getElem?_eq_some_iff.mp valued).1
  have notMarked : solver.assigned[literal.atom]? = some false := by
    rw [Assignment.isAssigned_eq_false, isValue] at isOpen
    cases isAssigned with
    | true => cases isOpen
    | false => exact marked
  refine ⟨_, if_pos ⟨inside, valuesInside⟩, ⟨?_, ?_, ?_⟩, ⟨rfl, ?_, ?_, ?_⟩, rfl⟩
  · simpa [Assignment.assign] using represents.assignedSize
  · simpa [Assignment.assign] using represents.valuesSize
  · intro v bound
    by_cases isIt : literal.atom = v
    · subst isIt
      simp [Assignment.assign, value?, inside, valuesInside]
    · rw [Assignment.getElem?_assign_of_ne isIt, represents.value v bound]
      simp [value?, Array.getElem?_setIfInBounds_ne isIt]
  · refine ⟨[literal.atom], rfl, ?_, fun v => ?_⟩
    · intro v mem
      rw [List.mem_singleton.mp mem]
      exact notMarked
    · by_cases isIt : literal.atom = v
      · subst isIt
        simp [inside]
      · simp [Array.getElem?_setIfInBounds_ne isIt, Ne.symm isIt]
  · simp
  · intro v isMarked
    have different : literal.atom ≠ v := by
      rintro rfl
      rw [notMarked] at isMarked
      cases isMarked
    simp [Array.getElem?_setIfInBounds_ne different]

end Solver

end Entailment.Sat
