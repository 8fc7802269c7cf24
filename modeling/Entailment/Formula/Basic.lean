/-!
# Formulas

One type of formula serves every stage of the prover.  `Formula β α` has atoms
of type `α` and quantifiers that bind names of type `β`:

* a propositional formula binds nothing, so its `β` is `Empty`;
* a formula as it is written binds names;
* a formula over a signature binds variables of the signature.

A literal is an atom with a sign.  Literals are ordered by their atoms first,
which makes the two literals of one atom neighbours in a sorted list.
-/

namespace Entailment

/-- Whether a literal asserts or denies its atom. -/
inductive Sign where
  | positive
  | negative
  deriving DecidableEq, Repr

namespace Sign

/-- The other sign. -/
def negate : Sign → Sign
  | positive => negative
  | negative => positive

/-- The sign of an atom under a number of negations of the given parity. -/
def ofInversion (invert : Bool) : Sign :=
  if invert then negative else positive

instance : Ord Sign where
  compare
    | positive, positive => .eq
    | positive, negative => .lt
    | negative, positive => .gt
    | negative, negative => .eq

instance : Std.TransOrd Sign where
  eq_swap {a b} := by cases a <;> cases b <;> rfl
  isLE_trans {a b c} := by cases a <;> cases b <;> cases c <;> decide

instance : Std.LawfulEqOrd Sign where
  compare_self {a} := by cases a <;> rfl
  eq_of_compare {a b} := by cases a <;> cases b <;> decide

end Sign

/-- An atom or the negation of an atom. -/
structure Literal (α : Type) where
  atom : α
  sign : Sign
  deriving DecidableEq, Repr

namespace Literal

variable {α γ : Type}

/-- The literal that asserts an atom. -/
def positive (atom : α) : Literal α := ⟨atom, .positive⟩

/-- The literal that denies an atom. -/
def negative (atom : α) : Literal α := ⟨atom, .negative⟩

/-- The literal of the same atom with the other sign. -/
def negate (literal : Literal α) : Literal α :=
  ⟨literal.atom, literal.sign.negate⟩

/-- Whether two literals have the same atom and different signs. -/
def isComplementOf [DecidableEq α] (left right : Literal α) : Bool :=
  decide (left.sign ≠ right.sign) && decide (left.atom = right.atom)

/-- Replace the atom of a literal. -/
def map (f : α → γ) (literal : Literal α) : Literal γ :=
  ⟨f literal.atom, literal.sign⟩

/-- The text of a literal. -/
def render (atomText : α → String) (literal : Literal α) : String :=
  match literal.sign with
  | .positive => atomText literal.atom
  | .negative => "~" ++ atomText literal.atom

/-- Literals are ordered by their atoms, and the positive literal of an atom
comes before the negative one. -/
instance [Ord α] : Ord (Literal α) where
  compare left right :=
    (compare left.atom right.atom).then (compare left.sign right.sign)

theorem compare_def [Ord α] (left right : Literal α) :
    compare left right =
      (compare left.atom right.atom).then (compare left.sign right.sign) :=
  rfl

instance [Ord α] [Std.TransOrd α] : Std.TransOrd (Literal α) :=
  inferInstanceAs (Std.TransCmp (compareLex (compareOn Literal.atom) (compareOn Literal.sign)))

instance [Ord α] [Std.LawfulEqOrd α] : Std.LawfulEqOrd (Literal α) where
  compare_self := by simp [compare_def]
  eq_of_compare {left right} same := by
    cases left
    cases right
    simpa [compare_def, Ordering.then_eq_eq] using same

end Literal

/-- The binary connectives. -/
inductive Connective where
  | and
  | or
  | implies
  | equiv
  deriving DecidableEq, Repr

/-- How a connective is written. -/
def Connective.symbol : Connective → String
  | and => "^"
  | or => "|"
  | implies => "=>"
  | equiv => "<=>"

/-- The quantifiers. -/
inductive Quantifier where
  | universal
  | existential
  deriving DecidableEq, Repr

namespace Quantifier

/-- The quantifier that a negation turns this one into. -/
def dual : Quantifier → Quantifier
  | universal => existential
  | existential => universal

/-- How a quantifier is written. -/
def symbol : Quantifier → String
  | universal => "!A"
  | existential => "!E"

end Quantifier

/-- Formulas over atoms of type `α` whose quantifiers bind names of type `β`. -/
inductive Formula (β α : Type) where
  | truth (value : Bool)
  | atom (a : α)
  | not (body : Formula β α)
  | binary (connective : Connective) (left right : Formula β α)
  | quantified (quantifier : Quantifier) (binder : β) (body : Formula β α)
  deriving DecidableEq, Repr

/-- How a truth constant is written. -/
def truthSymbol (value : Bool) : String :=
  if value then "T" else "F"

namespace Formula

variable {β α γ : Type}

/-- `t₁ c (t₂ c (… c tₙ))`, or nothing for no operands. -/
def foldRight? (connective : Connective) : List (Formula β α) → Option (Formula β α)
  | [] => none
  | operand :: rest =>
      match foldRight? connective rest with
      | none => some operand
      | some folded => some (.binary connective operand folded)

/-- The conjunction of some formulas, which is true for no formulas. -/
def conjunction (operands : List (Formula β α)) : Formula β α :=
  (foldRight? .and operands).getD (.truth true)

/-- The disjunction of some formulas, which is false for no formulas. -/
def disjunction (operands : List (Formula β α)) : Formula β α :=
  (foldRight? .or operands).getD (.truth false)

/-- The last formula under the assumption of all others.  A single formula is
taken as it is, and no formulas give a true one. -/
def implication (operands : List (Formula β α)) : Formula β α :=
  match operands.getLast? with
  | none => .truth true
  | some consequent =>
      match operands.dropLast with
      | [] => consequent
      | antecedents => .binary .implies (conjunction antecedents) consequent

/-- The atoms of a formula from left to right, with repetitions. -/
def atoms : Formula β α → List α
  | truth _ => []
  | atom a => [a]
  | not body => body.atoms
  | binary _ left right => left.atoms ++ right.atoms
  | quantified _ _ body => body.atoms

/-- Replace every atom of a formula. -/
def mapAtoms (f : α → γ) : Formula β α → Formula β γ
  | truth value => .truth value
  | atom a => .atom (f a)
  | not body => .not (body.mapAtoms f)
  | binary connective left right => .binary connective (left.mapAtoms f) (right.mapAtoms f)
  | quantified quantifier binder body => .quantified quantifier binder (body.mapAtoms f)

/-- Whether a formula has no quantifier. -/
def isQuantifierFree : Formula β α → Bool
  | truth _ => true
  | atom _ => true
  | not body => body.isQuantifierFree
  | binary _ left right => left.isQuantifierFree && right.isQuantifierFree
  | quantified _ _ _ => false

/-- Write a formula with parentheses around every binary and every quantified
formula and none after a negation. -/
def render (binderText : β → String) (atomText : α → String) : Formula β α → String
  | truth value => truthSymbol value
  | atom a => atomText a
  | not body => "~" ++ body.render binderText atomText
  | binary connective left right =>
      "(" ++ left.render binderText atomText ++ " " ++ connective.symbol ++ " " ++
        right.render binderText atomText ++ ")"
  | quantified quantifier binder body =>
      "(" ++ quantifier.symbol ++ " " ++ binderText binder ++ " " ++
        body.render binderText atomText ++ ")"

end Formula

end Entailment
