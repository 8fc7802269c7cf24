import Entailment.FirstOrder.Clause
import Entailment.FirstOrder.Signature

/-!
# Renaming clauses

The variables of a clause are read universally, so their names do not matter.
Renaming maps the variables of a clause, in the order of their first
occurrence, to consecutive canonical variables.  Two clauses renamed one after
the other, the second onto the canonical variables after those of the first,
have no variable in common.

A clause is kept in the form it gets when it is renamed onto the first
canonical variables.
-/

namespace Entailment.FirstOrder

/-- The substitution that maps some variables to the canonical variables from
number `next` on.  A variable that would be mapped to itself is left out. -/
def Signature.renaming (signature : Signature) (next : Nat) (vars : List Variable) :
    Substitution :=
  (vars.zipIdx next).foldl
    (fun σ (v, index) =>
      let target := signature.canonicalVariable index
      if target = v then σ else σ.insert v (.var target))
    .empty

namespace Clause

/-- Rename a clause onto the canonical variables from number `next` on.  They
have to exist. -/
def renameFrom (signature : Signature) (next : Nat) (c : Clause) : Clause :=
  c.apply (signature.renaming next c.vars)

/-- Rename a clause onto the first canonical variables, which have to exist. -/
def normalize (signature : Signature) (c : Clause) : Clause :=
  c.renameFrom signature 0

/-- Rename a clause onto the canonical variables from number `next` on, creating
those that are missing.  The number returned is the next one. -/
def standardizeApart (next : Nat) (c : Clause) (signature : Signature) :
    Clause × Nat × Signature :=
  let last := next + c.vars.length
  let signature := signature.reserveCanonical last
  (c.renameFrom signature next, last, signature)

/-- Rename a clause onto the first canonical variables, creating those that are
missing. -/
def canonical (c : Clause) (signature : Signature) : Clause × Signature :=
  let signature := signature.reserveCanonical c.vars.length
  (c.normalize signature, signature)

/-- Rename some clauses one after the other onto the first canonical variables. -/
def canonicalAll : List Clause → Signature → List Clause × Signature
  | [], signature => ([], signature)
  | c :: rest, signature =>
      let (renamed, signature) := c.canonical signature
      let (others, signature) := canonicalAll rest signature
      (renamed :: others, signature)

end Clause

end Entailment.FirstOrder
