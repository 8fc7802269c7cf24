import Entailment.Error

/-!
# Negation normal form

A formula is in negation normal form when it is built from literals and truth
constants by conjunction, disjunction and quantifiers.  It is reached in three
steps: equivalences become two implications, implications become disjunctions,
and negations move down to the atoms.

The last step fails on a formula that still has an implication or an
equivalence.  After the first two steps it cannot fail.
-/

namespace Entailment.Formula

variable {β α : Type}

/-- Replace every `a <=> b` by `(a => b) ^ (b => a)`. -/
def removeEquivalence : Formula β α → Formula β α
  | truth value => .truth value
  | atom a => .atom a
  | not body => .not body.removeEquivalence
  | binary .equiv left right =>
      .binary .and
        (.binary .implies left.removeEquivalence right.removeEquivalence)
        (.binary .implies right.removeEquivalence left.removeEquivalence)
  | binary connective left right =>
      .binary connective left.removeEquivalence right.removeEquivalence
  | quantified quantifier binder body => .quantified quantifier binder body.removeEquivalence

/-- Replace every `a => b` by `~a | b`. -/
def removeImplication : Formula β α → Formula β α
  | truth value => .truth value
  | atom a => .atom a
  | not body => .not body.removeImplication
  | binary .implies left right =>
      .binary .or (.not left.removeImplication) right.removeImplication
  | binary connective left right =>
      .binary connective left.removeImplication right.removeImplication
  | quantified quantifier binder body => .quantified quantifier binder body.removeImplication

/-- Move negations down to the atoms.  With `invert` the whole formula is
negated, and two negations on the way cancel. -/
def pushNegation (invert : Bool) : Formula β α → Except Error (Formula β α)
  | truth value => .ok (.truth (value != invert))
  | atom a => .ok (if invert then .not (.atom a) else .atom a)
  | not body => body.pushNegation (!invert)
  | binary .and left right => do
      let left ← left.pushNegation invert
      let right ← right.pushNegation invert
      return .binary (if invert then .or else .and) left right
  | binary .or left right => do
      let left ← left.pushNegation invert
      let right ← right.pushNegation invert
      return .binary (if invert then .and else .or) left right
  | binary connective _ _ =>
      .error (.invariant (.connectiveInNegationNormalForm connective))
  | quantified quantifier binder body => do
      let body ← body.pushNegation invert
      return .quantified (if invert then quantifier.dual else quantifier) binder body

/-- The negation normal form of a formula, or of its negation with `invert`. -/
def negationNormal (invert : Bool) (formula : Formula β α) : Except Error (Formula β α) :=
  formula.removeEquivalence.removeImplication.pushNegation invert

end Entailment.Formula
