import Entailment.Error
import Entailment.FirstOrder.Clause
import Entailment.FirstOrder.Signature

/-!
# Skolemization

Quantifiers are removed from a formula in negation normal form.  A universal
quantifier goes and its variable stays, since the variables of a clause are
read universally.  An existential quantifier goes and its variable is replaced
by a new Skolem function of the universal variables in scope, of which the free
variables of the whole formula are the outermost.

Removing equivalences copies subformulas, so one variable can be bound by
several quantifiers, even of both kinds.  Therefore each universal quantifier
gets a new variable, and a replacement holds only inside the body of its
quantifier.
-/

namespace Entailment.FirstOrder

/-- What Skolemization carries along: the signature, and the existential
variables replaced so far with their Skolem functions, last one first. -/
structure Skolemization where
  signature : Signature
  witnesses : List (Variable × FunctionSymbol)
  deriving DecidableEq

namespace Skolemization

/-- Remove the quantifiers of a formula.  `universals` are the universal
variables in scope, and `σ` replaces the variables of the quantifiers in
scope. -/
def run (universals : List Variable) (σ : Substitution) :
    Formula Variable Atom → Skolemization → Except Error (Formula Variable Atom) × Skolemization
  | .truth value, state => (.ok (.truth value), state)
  | .atom a, state => (.ok (.atom (a.apply σ)), state)
  | .not (.atom a), state => (.ok (.not (.atom (a.apply σ))), state)
  | .not _, state => (.error (.invariant .negationInSkolemization), state)
  | .binary .implies _ _, state =>
      (.error (.invariant (.connectiveInSkolemization .implies)), state)
  | .binary .equiv _ _, state =>
      (.error (.invariant (.connectiveInSkolemization .equiv)), state)
  | .binary connective left right, state =>
      match run universals σ left state with
      | (.error error, state) => (.error error, state)
      | (.ok left, state) =>
          match run universals σ right state with
          | (.error error, state) => (.error error, state)
          | (.ok right, state) => (.ok (.binary connective left right), state)
  | .quantified .universal v body, state =>
      let (fresh, signature) := state.signature.addVariable (state.signature.variableName v)
      run (universals ++ [fresh]) (σ.insert v (.var fresh)) body
        { state with signature := signature }
  | .quantified .existential v body, state =>
      let (f, signature) := state.signature.addSkolem universals.length
      run universals (σ.insert v (.app f (universals.map .var))) body
        ⟨signature, (v, f) :: state.witnesses⟩

end Skolemization

/-- Remove the quantifiers of a formula in negation normal form whose free
variables are `free`. -/
def skolemize (free : List Variable) (formula : Formula Variable Atom) (signature : Signature) :
    Except Error (Formula Variable Atom) × Skolemization :=
  Skolemization.run free .empty formula ⟨signature, []⟩

end Entailment.FirstOrder
