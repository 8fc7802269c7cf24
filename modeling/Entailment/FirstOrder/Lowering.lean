import Entailment.FirstOrder.Clause
import Entailment.FirstOrder.Signature
import Entailment.FirstOrder.Surface

/-!
# From names to symbols

A written formula is turned into a formula over a signature.  Every quantifier
gets a variable of its own, so that a name means the variable of the nearest
quantifier around it that binds the name.  All other occurrences of a name in
the formula mean one and the same free variable.

Symbols are interned in the order in which a formula is read from left to
right, a function symbol after its arguments and a predicate symbol after its
arguments.
-/

namespace Entailment.FirstOrder

/-- A formula over a signature, and its free variables with their names in the
order of first occurrence. -/
structure Lowered where
  formula : Formula Variable Atom
  free : List (String × Variable)
  deriving DecidableEq, Repr

/-- The free variables of a formula without their names. -/
def Lowered.freeVariables (lowered : Lowered) : List Variable :=
  lowered.free.map Prod.snd

/-- The formula with universal quantifiers for its free variables, the first one
outermost. -/
def Lowered.close (lowered : Lowered) : Formula Variable Atom :=
  lowered.freeVariables.foldr (fun v body => .quantified .universal v body) lowered.formula

/-- What lowering carries from one occurrence to the next: the signature and the
free variables met so far. -/
structure Lowering where
  signature : Signature
  free : List (String × Variable)
  deriving DecidableEq

namespace Lowering

/-- The first variable that a list gives a name. -/
def find? (name : String) : List (String × Variable) → Option Variable
  | [] => none
  | (other, v) :: rest => if other = name then some v else find? name rest

/-- The variable of a name.  `bound` lists the quantifiers around it, the nearest
first. -/
def lowerVariable (bound : List (String × Variable)) (name : String) (state : Lowering) :
    Variable × Lowering :=
  match find? name bound with
  | some v => (v, state)
  | none =>
      match find? name state.free with
      | some v => (v, state)
      | none =>
          let (v, signature) := state.signature.addVariable name
          (v, ⟨signature, state.free ++ [(name, v)]⟩)

mutual

/-- The term of a written term. -/
def lowerTerm (bound : List (String × Variable)) : SurfaceTerm → Lowering → Term × Lowering
  | .var name, state =>
      let (v, state) := lowerVariable bound name state
      (.var v, state)
  | .app name args, state =>
      let (args, state) := lowerTerms bound args state
      let (f, signature) := state.signature.internFunction name args.length
      (.app f args, { state with signature := signature })

/-- The terms of some written terms. -/
def lowerTerms (bound : List (String × Variable)) :
    List SurfaceTerm → Lowering → List Term × Lowering
  | [], state => ([], state)
  | t :: ts, state =>
      let (t, state) := lowerTerm bound t state
      let (ts, state) := lowerTerms bound ts state
      (t :: ts, state)

end

/-- The atom of a predicate name and written arguments. -/
def lowerPredicate (bound : List (String × Variable)) (name : String) (args : List SurfaceTerm)
    (state : Lowering) : Atom × Lowering :=
  let (args, state) := lowerTerms bound args state
  let (p, signature) := state.signature.internPredicate name args.length
  (⟨p, args⟩, { state with signature := signature })

/-- The atom of a written atom.  An equation is an atom of the predicate `=`. -/
def lowerAtom (bound : List (String × Variable)) : SurfaceAtom → Lowering → Atom × Lowering
  | .predicate name args, state => lowerPredicate bound name args state
  | .equation left right, state =>
      lowerPredicate bound Signature.equality [left, right] state

/-- The formula of a written formula. -/
def lowerFormula (bound : List (String × Variable)) :
    SurfaceFormula → Lowering → Formula Variable Atom × Lowering
  | .truth value, state => (.truth value, state)
  | .atom a, state =>
      let (a, state) := lowerAtom bound a state
      (.atom a, state)
  | .not body, state =>
      let (body, state) := lowerFormula bound body state
      (.not body, state)
  | .binary connective left right, state =>
      let (left, state) := lowerFormula bound left state
      let (right, state) := lowerFormula bound right state
      (.binary connective left right, state)
  | .quantified quantifier name body, state =>
      let (v, signature) := state.signature.addVariable name
      let (body, state) :=
        lowerFormula ((name, v) :: bound) body { state with signature := signature }
      (.quantified quantifier v body, state)

end Lowering

/-- Turn a written formula into a formula over an extended signature. -/
def SurfaceFormula.lower (formula : SurfaceFormula) (signature : Signature) :
    Lowered × Signature :=
  let (lowered, state) := Lowering.lowerFormula [] formula ⟨signature, []⟩
  (⟨lowered, state.free⟩, state.signature)

end Entailment.FirstOrder
