import Entailment.FirstOrder.Signature
import Entailment.FirstOrder.Surface

/-!
# The names of written terms and formulas

Written terms are trees with lists of children, and the functions on them recurse
through those lists.  Here is an induction on written terms with one hypothesis for all
arguments, and the texts of arguments as an ordinary map.

A term, an atom or a formula is written with names.  Some of them are names of symbols and
others are names of variables, which are free or bound in a formula.  One function gathers
names in a term, and the kinds of names are cases of it.
-/

namespace Entailment.FirstOrder

namespace SurfaceTerm

/-- Induction on written terms, with a hypothesis for every argument. -/
@[elab_as_elim]
theorem induction {motive : SurfaceTerm → Prop} (var : ∀ name, motive (.var name))
    (app : ∀ name args, (∀ t ∈ args, motive t) → motive (.app name args)) (t : SurfaceTerm) :
    motive t :=
  @SurfaceTerm.rec motive (fun args => ∀ t ∈ args, motive t) var
    (fun name args ih => app name args ih) (by simp)
    (fun t ts first rest s mem => (List.mem_cons.mp mem).elim (fun same => same ▸ first) (rest s))
    t

theorem renderArgs_eq (args : List SurfaceTerm) : renderArgs args = args.map render := by
  induction args with
  | nil => rfl
  | cons t ts ih => simp [renderArgs, ih]

mutual

/-- What is gathered in a term from left to right, at its variables and at its functions. -/
def gather (atVariable atFunction : String → List String) : SurfaceTerm → List String
  | var name => atVariable name
  | app name args => atFunction name ++ gatherArgs atVariable atFunction args

/-- What is gathered in some terms. -/
def gatherArgs (atVariable atFunction : String → List String) : List SurfaceTerm → List String
  | [] => []
  | t :: ts => gather atVariable atFunction t ++ gatherArgs atVariable atFunction ts

end

theorem gather_app (atVariable atFunction : String → List String) (name : String)
    (args : List SurfaceTerm) :
    gather atVariable atFunction (.app name args) =
      atFunction name ++ args.flatMap (gather atVariable atFunction) := by
  have inArgs : gatherArgs atVariable atFunction args =
      args.flatMap (gather atVariable atFunction) := by
    induction args with
    | nil => rfl
    | cons t ts ih => rw [gatherArgs, ih, List.flatMap_cons]
  rw [gather, inArgs]

/-- The names in a term. -/
def names : SurfaceTerm → List String := gather (fun name => [name]) fun name => [name]

/-- The names of functions in a term. -/
def symbols : SurfaceTerm → List String := gather (fun _ => []) fun name => [name]

/-- The variables of a term from left to right, with repetitions. -/
def vars : SurfaceTerm → List String := gather (fun name => [name]) fun _ => []

theorem names_app (name : String) (args : List SurfaceTerm) :
    (app name args).names = name :: args.flatMap names :=
  gather_app ..

theorem symbols_app (name : String) (args : List SurfaceTerm) :
    (app name args).symbols = name :: args.flatMap symbols :=
  gather_app ..

theorem vars_app (name : String) (args : List SurfaceTerm) :
    (app name args).vars = args.flatMap vars :=
  gather_app ..

end SurfaceTerm

/-- The names in an atom. -/
def SurfaceAtom.names : SurfaceAtom → List String
  | predicate name args => name :: args.flatMap SurfaceTerm.names
  | equation left right => left.names ++ right.names

/-- The names of functions and predicates in an atom. -/
def SurfaceAtom.symbols : SurfaceAtom → List String
  | predicate name args => name :: args.flatMap SurfaceTerm.symbols
  | equation left right => Signature.equality :: [left, right].flatMap SurfaceTerm.symbols

/-- The variables of an atom from left to right, with repetitions. -/
def SurfaceAtom.vars : SurfaceAtom → List String
  | predicate _ args => args.flatMap SurfaceTerm.vars
  | equation left right => [left, right].flatMap SurfaceTerm.vars

/-- The names in a formula, those of bound variables included. -/
def SurfaceFormula.names : SurfaceFormula → List String
  | .truth _ => []
  | .atom a => a.names
  | .not body => SurfaceFormula.names body
  | .binary _ left right => SurfaceFormula.names left ++ SurfaceFormula.names right
  | .quantified _ name body => name :: SurfaceFormula.names body

/-- The free occurrences of variables in a formula, from left to right. -/
def SurfaceFormula.freeOccurrences : SurfaceFormula → List String
  | .truth _ => []
  | .atom a => a.vars
  | .not body => SurfaceFormula.freeOccurrences body
  | .binary _ left right =>
      SurfaceFormula.freeOccurrences left ++ SurfaceFormula.freeOccurrences right
  | .quantified _ name body =>
      (SurfaceFormula.freeOccurrences body).filter fun other => decide (other ≠ name)

/-- The free names of a formula in the order of their first occurrence. -/
def SurfaceFormula.freeNames (formula : SurfaceFormula) : List String :=
  formula.freeOccurrences.eraseDups

end Entailment.FirstOrder
