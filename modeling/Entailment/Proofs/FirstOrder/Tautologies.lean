import Entailment.FirstOrder.Order
import Entailment.Proofs.Formula.ClausalTruth

/-!
# Clauses with an atom of both signs

A disjunction is tested for being a tautology by comparing neighbours, a clause by
comparing each literal with all that follow it.  Both tests find out whether some atom
stands there with both signs.  The neighbours are enough because literals are ordered by
their atoms first and the order of atoms is lawful, however deep their terms are nested.
-/

namespace Entailment

theorem Literal.isComplementOf_iff {α : Type} [DecidableEq α] {left right : Literal α} :
    left.isComplementOf right = true ↔ right = left.negate := by
  obtain ⟨a, sign⟩ := left
  obtain ⟨b, otherSign⟩ := right
  cases sign <;> cases otherSign <;> simp [isComplementOf, negate, Sign.negate, eq_comm]

namespace FirstOrder.Clause

/-- A literal is followed by its complement when both literals of an atom are there. -/
theorem hasComplement_iff {literals : List (Literal Atom)} :
    hasComplement literals = true ↔ ∃ a, .positive a ∈ literals ∧ .negative a ∈ literals := by
  induction literals with
  | nil => simp [hasComplement]
  | cons literal rest ih =>
      have here : rest.any literal.isComplementOf = true ↔ literal.negate ∈ rest := by
        simp [Literal.isComplementOf_iff]
      rw [hasComplement, Bool.or_eq_true, here, ih]
      obtain ⟨a, sign⟩ := literal
      cases sign with
      | positive =>
        simp [Literal.positive, Literal.negative, Literal.negate, Sign.negate, or_and_right,
          exists_or]
      | negative =>
        simp [Literal.positive, Literal.negative, Literal.negate, Sign.negate, and_or_left,
          exists_or]

theorem isTautology_iff {c : Clause} :
    c.isTautology = true ↔ ∃ a, .positive a ∈ c.literals ∧ .negative a ∈ c.literals :=
  hasComplement_iff

/-- The two tests agree on every set of literals: neighbours have the same atom, or some
literal is followed by its complement, exactly when an atom is there with both signs. -/
theorem tautology_tests_agree (literals : List (Literal Atom)) :
    (Disjunction.isTautology (Sorted.ofList literals) = true ↔
        (Clause.ofList literals).isTautology = true) ∧
      ((Clause.ofList literals).isTautology = true ↔
        ∃ a, .positive a ∈ literals ∧ .negative a ∈ literals) := by
  have byNeighbours := Disjunction.isTautology_iff (Sorted.isIncreasing_ofList literals)
  have byPairs := isTautology_iff (c := .ofList literals)
  refine ⟨byNeighbours.trans byPairs.symm, byPairs.trans ?_⟩
  simp only [ofList, Sorted.mem_ofList]

end FirstOrder.Clause

end Entailment
