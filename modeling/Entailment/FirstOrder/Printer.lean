import Entailment.FirstOrder.Clause
import Entailment.FirstOrder.Signature
import Entailment.FirstOrder.Surface

/-!
# Printing over a signature

Terms, atoms, clauses and formulas are printed with the names of a signature in
the notation that formulas are written in.  An atom of the binary predicate `=`
is printed as an equation.
-/

namespace Entailment.FirstOrder.Signature

mutual

/-- The text of a term. -/
def renderTerm (signature : Signature) : Term → String
  | .var v => "?" ++ signature.variableName v
  | .app f args =>
      (signature.functionInfo f).name ++ parenthesize (renderTerms signature args)

/-- The texts of some terms. -/
def renderTerms (signature : Signature) : List Term → List String
  | [] => []
  | t :: ts => renderTerm signature t :: renderTerms signature ts

end

/-- The two sides of an equation. -/
def equation? (signature : Signature) (a : Atom) : Option (Term × Term) :=
  match a.args with
  | [s, t] => if signature.predicateName a.predicate = equality then some (s, t) else none
  | _ => none

/-- The text of an atom. -/
def renderAtom (signature : Signature) (a : Atom) : String :=
  match signature.equation? a with
  | some (s, t) => signature.renderTerm s ++ " = " ++ signature.renderTerm t
  | none =>
      signature.predicateName a.predicate ++ parenthesize (signature.renderTerms a.args)

/-- The text of a literal. -/
def renderLiteral (signature : Signature) (literal : Literal Atom) : String :=
  match literal.sign with
  | .positive => signature.renderAtom literal.atom
  | .negative =>
      match signature.equation? literal.atom with
      | some (s, t) => signature.renderTerm s ++ " ~= " ++ signature.renderTerm t
      | none => "~" ++ signature.renderAtom literal.atom

/-- The text of a clause. -/
def renderClause (signature : Signature) (c : Clause) : String :=
  if c.isEmpty then "⊥"
  else String.intercalate " | " (c.literals.map signature.renderLiteral)

/-- The text of a formula.  A negation has parentheses around its body unless
the body is an atom or a truth constant. -/
def renderFormula (signature : Signature) : Formula Variable Atom → String
  | .truth value => truthSymbol value
  | .atom a => signature.renderAtom a
  | .not (.atom a) => "~" ++ signature.renderAtom a
  | .not (.truth value) => "~" ++ truthSymbol value
  | .not body => "~(" ++ signature.renderFormula body ++ ")"
  | .binary connective left right =>
      "(" ++ signature.renderFormula left ++ " " ++ connective.symbol ++ " " ++
        signature.renderFormula right ++ ")"
  | .quantified quantifier v body =>
      quantifier.symbol ++ " ?" ++ signature.variableName v ++ " " ++
        signature.renderFormula body

end Entailment.FirstOrder.Signature
