import Mathlib.Data.List.Permutation
import Entailment.Proofs.Formula.ClausalTruth

/-!
# Truth tables of clausal forms

A truth assignment gives every atom a truth value, and from it every formula, every
disjunction of literals and every clause set has a value that can be computed.  The
clauses of a quantifier free formula have the truth table of the formula, or of its
negation with `invert`, and none of them has an atom with both signs.

The values are computed, and they agree with the truth of `Formula.Holds` over a domain
with one element, where a quantifier adds nothing.
-/

namespace Entailment

open Std (TransOrd LawfulEqOrd)

variable {β α : Type}

/-! ## Values -/

/-- The value of a compound, given those of its parts. -/
def Connective.value : Connective → Bool → Bool → Bool
  | and, left, right => left && right
  | or, left, right => left || right
  | implies, left, right => !left || right
  | equiv, left, right => left == right

/-- The value of a formula under a truth assignment.  The values of the atoms are fixed,
so a quantifier changes nothing. -/
def Formula.value (assignment : α → Bool) : Formula β α → Bool
  | truth value => value
  | atom a => assignment a
  | not body => !body.value assignment
  | binary connective left right =>
      connective.value (left.value assignment) (right.value assignment)
  | quantified _ _ body => body.value assignment

/-- The value of a literal under a truth assignment. -/
def Literal.value (assignment : α → Bool) (literal : Literal α) : Bool :=
  match literal.sign with
  | .positive => assignment literal.atom
  | .negative => !assignment literal.atom

/-- The value of a disjunction under a truth assignment. -/
def Disjunction.value (assignment : α → Bool) (clause : Disjunction α) : Bool :=
  clause.any (Literal.value assignment)

/-- The value of a clause set under a truth assignment. -/
def ClauseSet.value (assignment : α → Bool) (clauses : ClauseSet α) : Bool :=
  clauses.all (Disjunction.value assignment)

theorem Connective.value_eq_true_iff (connective : Connective) (left right : Bool) :
    connective.value left right = true ↔ connective.Holds (left = true) (right = true) := by
  cases connective <;> cases left <;> cases right <;> simp [value, Holds]

/-- The value of a formula is its truth over a domain with one element. -/
theorem Formula.value_eq_true_iff [DecidableEq β] (assignment : α → Bool) (formula : Formula β α)
    (ρ : β → Unit) :
    formula.value assignment = true ↔ formula.Holds (fun _ a => assignment a = true) ρ := by
  induction formula generalizing ρ with
  | truth value => rfl
  | atom a => rfl
  | not body ih =>
      rw [value, Holds, ← ih ρ, Bool.not_eq_true', Bool.not_eq_true]
  | binary connective left right leftIh rightIh =>
      rw [value, Holds, connective.value_eq_true_iff, ← propext (leftIh ρ), ← propext (rightIh ρ)]
  | quantified quantifier binder body ih =>
      cases quantifier with
      | universal => exact (ih _).trans ⟨fun holds _ => holds, fun all => all ()⟩
      | existential =>
          refine (ih _).trans ⟨fun holds => ⟨(), holds⟩, ?_⟩
          rintro ⟨_, holds⟩
          exact holds

theorem Literal.value_eq_true_iff (assignment : α → Bool) (literal : Literal α) :
    literal.value assignment = true ↔ literal.Holds fun a => assignment a = true := by
  obtain ⟨a, sign⟩ := literal
  cases sign <;> simp [value, Holds]

theorem ClauseSet.value_eq_true_iff (assignment : α → Bool) (clauses : ClauseSet α) :
    clauses.value assignment = true ↔ clauses.Holds fun a => assignment a = true := by
  simp only [value, Holds, List.all_eq_true, Disjunction.value, List.any_eq_true,
    Literal.value_eq_true_iff, Disjunction.Holds]

/-- A proposition, or its negation, is true when its value differs from `invert`. -/
theorem bne_eq_true_iff_inverted (invert value : Bool) :
    (value != invert) = true ↔ inverted invert (value = true) := by
  cases invert <;> cases value <;> simp

/-! ## Clausal forms -/

/-- The clauses of a quantifier free formula exist.  They have the truth table of the
formula, or of its negation with `invert`, and no clause has an atom with both signs. -/
theorem Formula.clauses_have_truth_table [Ord α] [TransOrd α] [LawfulEqOrd α] [DecidableEq α]
    {formula : Formula β α} (free : formula.isQuantifierFree = true) (invert : Bool) :
    ∃ normal distributed, formula.negationNormal invert = .ok normal ∧
      normal.distribute = .ok distributed ∧
      formula.clauses invert = .ok distributed.withoutTautologies ∧
      (∀ assignment : α → Bool, distributed.withoutTautologies.value assignment =
        (formula.value assignment != invert)) ∧
      ∀ clause ∈ distributed.withoutTautologies, ∀ a,
        ¬(.positive a ∈ clause ∧ .negative a ∈ clause) := by
  classical
  obtain ⟨normal, normalized, form⟩ := negationNormal_spec.{0} invert formula
  obtain ⟨distributed, done, clausal⟩ :=
    distribute_spec.{0} form.isNormal (form.isQuantifierFree free)
  refine ⟨normal, distributed, normalized, done, ?_, fun assignment => ?_, fun clause mem a => ?_⟩
  · simp only [clauses, normalized, done, bind, Except.bind, pure, Except.pure]
  · rw [Bool.eq_iff_iff, ClauseSet.value_eq_true_iff,
      ClauseSet.holds_withoutTautologies _ clausal.isIncreasing,
      clausal.holds_iff (fun _ a => assignment a = true) fun _ => (), form.holds_iff,
      ← value_eq_true_iff, bne_eq_true_iff_inverted]
  · intro both
    obtain ⟨inDistributed, notTautology⟩ := List.mem_filter.mp mem
    have increasing := clausal.isIncreasing clause inDistributed
    have tautology := (Disjunction.isTautology_iff increasing).mpr ⟨a, both⟩
    simp [tautology] at notTautology

/-- The negation of an equivalence that has a disjunction on one side and the first atom
again on the other. -/
theorem Formula.clauses_have_truth_table_equivalence :
    let formula : Formula Empty Nat :=
      .binary .equiv (.binary .or (.atom 0) (.not (.atom 1))) (.binary .implies (.atom 0) (.atom 1))
    formula.isQuantifierFree = true ∧
    formula.clauses true = .ok [[.positive 0, .positive 1], [.negative 0, .negative 1]] ∧
    ∃ normal distributed, formula.negationNormal true = .ok normal ∧
      normal.distribute = .ok distributed ∧
      formula.clauses true = .ok distributed.withoutTautologies ∧
      (∀ assignment, distributed.withoutTautologies.value assignment =
        (formula.value assignment != true)) ∧
      ∀ clause ∈ distributed.withoutTautologies, ∀ a,
        ¬(.positive a ∈ clause ∧ .negative a ∈ clause) :=
  ⟨rfl, by cbv, clauses_have_truth_table rfl true⟩

end Entailment
