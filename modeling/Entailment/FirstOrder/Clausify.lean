import Entailment.FirstOrder.Lowering
import Entailment.FirstOrder.Renaming
import Entailment.FirstOrder.Skolem
import Entailment.Formula.Clausal

/-!
# From formulas to clauses

The clauses of a first-order formula are those of its Skolemized negation
normal form, without tautologies, renamed onto the canonical variables.
-/

namespace Entailment.FirstOrder

/-- The clauses of a formula, the extended signature, and the existential
variables with their Skolem functions in the order in which they were
replaced. -/
structure Clausification where
  clauses : Except Error (List Clause)
  signature : Signature
  witnesses : List (Variable × FunctionSymbol)

/-- The clauses of a formula in negation normal form whose free variables are
`free`. -/
def clausesOfNormal (free : List Variable) (formula : Formula Variable Atom)
    (signature : Signature) : Clausification :=
  match skolemize free formula signature with
  | (.error error, state) => ⟨.error error, state.signature, state.witnesses.reverse⟩
  | (.ok skolemized, state) =>
      match skolemized.distribute with
      | .error error => ⟨.error error, state.signature, state.witnesses.reverse⟩
      | .ok distributed =>
          let (clauses, signature) :=
            Clause.canonicalAll (distributed.withoutTautologies.map Clause.ofList) state.signature
          ⟨.ok clauses, signature, state.witnesses.reverse⟩

/-- The clauses of a formula, or of its negation with `invert`.  `free` are the
variables that count as universal. -/
def clausesOf (invert : Bool) (free : List Variable) (formula : Formula Variable Atom)
    (signature : Signature) : Clausification :=
  match formula.negationNormal invert with
  | .error error => ⟨.error error, signature, []⟩
  | .ok normal => clausesOfNormal free normal signature

/-- The clauses of a formula whose free variables are read universally. -/
def Lowered.clausify (lowered : Lowered) (signature : Signature) : Clausification :=
  clausesOf false lowered.freeVariables lowered.formula signature

end Entailment.FirstOrder
