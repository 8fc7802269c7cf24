import Entailment.FirstOrder.Unification
import Entailment.Formula.Basic
import Entailment.Order.Sorted

/-!
# First-order clauses

An atom is a predicate symbol applied to terms, and a clause is a disjunction
of literals over such atoms, its variables being read universally.  The
literals of a clause are sorted and none is repeated, so the literals on one
predicate are neighbours.  The empty clause is false.
-/

namespace Entailment.FirstOrder

/-- A predicate symbol applied to terms. -/
structure Atom where
  predicate : PredicateSymbol
  args : List Term
  deriving DecidableEq, Repr

namespace Atom

/-- Atoms are ordered by their predicates, then by their arguments. -/
instance : Ord Atom where
  compare a b := (compare a.predicate b.predicate).then (compare a.args b.args)

/-- Whether an atom has no variables. -/
def isGround (a : Atom) : Bool := Term.areGround a.args

/-- The variables of an atom from left to right, with repetitions. -/
def vars (a : Atom) : List Variable := Term.varsOfArgs a.args

/-- Apply a substitution to an atom. -/
def apply (σ : Substitution) (a : Atom) : Atom := ⟨a.predicate, a.args.map σ.apply⟩

/-- The most general unifier of two atoms, solving the equations between their
arguments from left to right. -/
def unify (a b : Atom) : Option Substitution :=
  if a.predicate ≠ b.predicate ∨ a.args.length ≠ b.args.length then none
  else solve .empty (a.args.zip b.args)

end Atom

/-- A sorted list of literals without repetitions, read as their disjunction. -/
structure Clause where
  literals : List (Literal Atom)
  deriving DecidableEq, Repr

namespace Clause

/-- Clauses are ordered lexicographically by their literals. -/
instance : Ord Clause where
  compare c d := compare c.literals d.literals

/-- The clause of some literals. -/
def ofList (literals : List (Literal Atom)) : Clause := ⟨Sorted.ofList literals⟩

/-- The clause without literals, which is false. -/
def empty : Clause := ⟨[]⟩

/-- Whether a clause is the empty clause. -/
def isEmpty (c : Clause) : Bool := c.literals.isEmpty

/-- How many literals a clause has. -/
def size (c : Clause) : Nat := c.literals.length

/-- Whether a literal is on a predicate with a sign. -/
def isOn (p : PredicateSymbol) (sign : Sign) (literal : Literal Atom) : Bool :=
  decide (literal.atom.predicate = p) && decide (literal.sign = sign)

/-- The literals on a predicate with a sign, each with its place in the
clause. -/
def literalsOn (p : PredicateSymbol) (sign : Sign) (c : Clause) : List (Literal Atom × Nat) :=
  c.literals.zipIdx.filter fun (literal, _) => isOn p sign literal

/-- Whether a clause has a literal on a predicate. -/
def mentions (p : PredicateSymbol) (c : Clause) : Bool :=
  c.literals.any fun literal => decide (literal.atom.predicate = p)

/-- Whether a clause has a literal on a predicate with a sign. -/
def hasLiteralOn (p : PredicateSymbol) (sign : Sign) (c : Clause) : Bool :=
  c.literals.any (isOn p sign)

/-- The predicates of a clause in the order of its literals, each of them
once. -/
def predicates (c : Clause) : List PredicateSymbol :=
  (c.literals.map fun literal => literal.atom.predicate).eraseDups

/-- Whether a literal is followed by its complement. -/
def hasComplement : List (Literal Atom) → Bool
  | [] => false
  | literal :: rest => rest.any literal.isComplementOf || hasComplement rest

/-- Whether a clause has an atom with both signs. -/
def isTautology (c : Clause) : Bool := hasComplement c.literals

/-- Whether a clause has no variables. -/
def isGround (c : Clause) : Bool := c.literals.all fun literal => literal.atom.isGround

/-- The variables of a clause in the order of their first occurrence. -/
def vars (c : Clause) : List Variable :=
  (c.literals.flatMap fun literal => literal.atom.vars).eraseDups

/-- The literals of a clause without the one at a place. -/
def without (place : Nat) (c : Clause) : List (Literal Atom) :=
  c.literals.eraseIdx place

/-- Apply a substitution to a clause.  Literals may become equal, so they are
sorted again. -/
def apply (σ : Substitution) (c : Clause) : Clause :=
  if σ.isEmpty then c else ofList (c.literals.map (Literal.map (Atom.apply σ)))

end Clause

end Entailment.FirstOrder
