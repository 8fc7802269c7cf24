import Entailment.Formula.Basic

/-!
# Formulas as they are written

A written formula speaks of variables, functions and predicates by their names.
Its atoms are predicates applied to terms, or equations between terms, and its
quantifiers bind names of variables.
-/

namespace Entailment.FirstOrder

/-- A term over names. -/
inductive SurfaceTerm where
  | var (name : String)
  | app (name : String) (args : List SurfaceTerm)
  deriving Repr

/-- An atom over names. -/
inductive SurfaceAtom where
  | predicate (name : String) (args : List SurfaceTerm)
  | equation (left right : SurfaceTerm)
  deriving Repr

/-- A formula over names. -/
abbrev SurfaceFormula := Formula String SurfaceAtom

/-- Write arguments in parentheses, and nothing for no arguments. -/
def parenthesize (args : List String) : String :=
  match args with
  | [] => ""
  | args => "(" ++ String.intercalate "," args ++ ")"

namespace SurfaceTerm

mutual

/-- The text of a term. -/
def render : SurfaceTerm → String
  | var name => "?" ++ name
  | app name args => name ++ parenthesize (renderArgs args)

/-- The texts of some terms. -/
def renderArgs : List SurfaceTerm → List String
  | [] => []
  | t :: ts => render t :: renderArgs ts

end

end SurfaceTerm

/-- The text of an atom. -/
def SurfaceAtom.render : SurfaceAtom → String
  | predicate name args => name ++ parenthesize (SurfaceTerm.renderArgs args)
  | equation left right => left.render ++ " = " ++ right.render

/-- The text of a written formula: parentheses stand around every binary formula
and after every negation, and none around a quantified formula. -/
def SurfaceFormula.render : SurfaceFormula → String
  | .truth value => truthSymbol value
  | .atom a => a.render
  | .not body => "~(" ++ SurfaceFormula.render body ++ ")"
  | .binary connective left right =>
      "(" ++ SurfaceFormula.render left ++ " " ++ connective.symbol ++ " " ++
        SurfaceFormula.render right ++ ")"
  | .quantified quantifier name body =>
      quantifier.symbol ++ " ?" ++ name ++ " " ++ SurfaceFormula.render body

end Entailment.FirstOrder
