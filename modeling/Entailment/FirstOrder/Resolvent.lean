import Entailment.FirstOrder.Renaming

/-!
# Resolvents

Two clauses are resolved on a predicate by renaming them apart, unifying the
atom of a positive literal of the first with that of a negative literal of the
second, and joining the instances of the other literals.  Every positive
literal of the first clause on the predicate is tried against every negative
literal of the second.

The literal that is resolved away is the one at its place.  An equal instance
of another literal stays.
-/

namespace Entailment.FirstOrder

/-- A positive literal of one clause set against a negative literal of another:
the two atoms, the other literals of both clauses, and the most general unifier
of the atoms. -/
structure Attempt where
  positive : Atom
  negative : Atom
  rest : List (Literal Atom)
  unifier : Option Substitution
  deriving DecidableEq

namespace Attempt

/-- The clause that an attempt gives. -/
def resolvent? (attempt : Attempt) : Option Clause :=
  attempt.unifier.map fun σ => (Clause.ofList attempt.rest).apply σ

/-- The terms that the arguments of the two atoms become. -/
def tuple? (attempt : Attempt) : Option (List Term) :=
  attempt.unifier.map fun σ => attempt.positive.args.map σ.apply

/-- Whether an attempt gives the empty clause. -/
def isRefutation (attempt : Attempt) : Bool :=
  attempt.resolvent?.any Clause.isEmpty

/-- The clauses that some attempts give, renamed onto the first canonical
variables. -/
def resolvents (signature : Signature) (attempts : List Attempt) : List Clause :=
  attempts.filterMap fun attempt => attempt.resolvent?.map (Clause.normalize signature)

end Attempt

namespace Clause

/-- Two clauses renamed onto different canonical variables, with the signature
that has them. -/
def renameApart (c d : Clause) (signature : Signature) : Clause × Clause × Signature :=
  let (c, next, signature) := c.standardizeApart 0 signature
  let (d, _, signature) := d.standardizeApart next signature
  (c, d, signature)

/-- All attempts to resolve two clauses without common variables on a predicate,
the first clause providing the positive literal. -/
def attempts (p : PredicateSymbol) (c d : Clause) : List Attempt :=
  (c.literalsOn p .positive).flatMap fun (positive, place) =>
    (d.literalsOn p .negative).map fun (negative, otherPlace) =>
      { positive := positive.atom
        negative := negative.atom
        rest := c.without place ++ d.without otherPlace
        unifier := positive.atom.unify negative.atom }

/-- All resolvents of two clauses on a predicate, renamed onto the first
canonical variables. -/
def resolvents (p : PredicateSymbol) (c d : Clause) (signature : Signature) :
    List Clause × Signature :=
  let (c, d, signature) := c.renameApart d signature
  (Attempt.resolvents signature (attempts p c d), signature)

end Clause

end Entailment.FirstOrder
