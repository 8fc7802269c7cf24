import Entailment.Formula.NegationNormal
import Entailment.Order.Sorted

/-!
# Clausal normal form

A quantifier free formula in negation normal form becomes a conjunction of
disjunctions of literals by distributing `|` over `^`.  Both levels are sets,
kept as sorted lists without repetitions: a `Disjunction` is a set of literals,
and a `ClauseSet` is a set of disjunctions.

A disjunction with both literals of an atom is a tautology and can be left out.
Literals are ordered by their atoms first, so it is enough to compare
neighbours.  Distribution makes no attempt to stay small.
-/

namespace Entailment

/-- A set of literals, read as their disjunction.  The empty set is false. -/
abbrev Disjunction (α : Type) := List (Literal α)

/-- A set of disjunctions, read as their conjunction.  The empty set is true. -/
abbrev ClauseSet (α : Type) := List (Disjunction α)

namespace Disjunction

variable {α : Type}

/-- Whether two neighbours of a sorted disjunction have the same atom. -/
def isTautology [DecidableEq α] : Disjunction α → Bool
  | [] => false
  | [_] => false
  | first :: second :: rest =>
      decide (first.atom = second.atom) || isTautology (second :: rest)

end Disjunction

namespace ClauseSet

variable {α : Type}

/-- Every union of a disjunction of `left` and a disjunction of `right`. -/
def product [Ord α] (left right : ClauseSet α) : ClauseSet α :=
  Sorted.ofList (left.flatMap fun first => right.map fun second => Sorted.union first second)

/-- Leave out the tautologies. -/
def withoutTautologies [DecidableEq α] (clauses : ClauseSet α) : ClauseSet α :=
  clauses.filter fun clause => !Disjunction.isTautology clause

end ClauseSet

namespace Formula

variable {β α : Type}

/-- Distribute `|` over `^` in a quantifier free formula in negation normal
form.  Truth contributes no disjunction and falsity the empty one. -/
def distribute [Ord α] : Formula β α → Except Error (ClauseSet α)
  | truth true => .ok []
  | truth false => .ok [[]]
  | atom a => .ok [[.positive a]]
  | not (.atom a) => .ok [[.negative a]]
  | not _ => .error (.invariant .negationInDistribution)
  | binary .and left right => do
      let left ← left.distribute
      let right ← right.distribute
      return Sorted.union left right
  | binary .or left right => do
      let left ← left.distribute
      let right ← right.distribute
      return ClauseSet.product left right
  | binary connective _ _ => .error (.invariant (.connectiveInDistribution connective))
  | quantified _ _ _ => .error (.invariant .quantifierInDistribution)

/-- The clauses of a quantifier free formula, or of its negation with `invert`,
without tautologies. -/
def clauses [Ord α] [DecidableEq α] (invert : Bool) (formula : Formula β α) :
    Except Error (ClauseSet α) := do
  let normal ← formula.negationNormal invert
  let distributed ← normal.distribute
  return distributed.withoutTautologies

end Formula

end Entailment
