import Entailment.Error

/-!
# DIMACS problems

A DIMACS problem is a list of clauses over variables numbered from one.  Its
text has a problem line with the number of variables and of clauses, comment
lines that start with `c`, and the clauses.  A clause is the list of its
literals, a literal is the number of its variable with a minus sign for a
negative one, and zero ends a clause.
-/

namespace Entailment.Dimacs

/-- Clauses over the variables `1, …, variableCount`. -/
structure Problem where
  variableCount : Nat
  clauses : List (List (Literal Nat))
  deriving DecidableEq, Repr

/-- The number that stands for a literal. -/
def literalNumber (literal : Literal Nat) : Int :=
  match literal.sign with
  | .positive => Int.ofNat literal.atom
  | .negative => -Int.ofNat literal.atom

/-- The line of a clause. -/
def clauseLine (clause : List (Literal Nat)) : String :=
  String.join (clause.map fun literal => toString (literalNumber literal) ++ " ") ++ "0\n"

/-- The text of a problem, with a comment line for the name of each variable. -/
def Problem.render (names : List (Nat × String)) (problem : Problem) : String :=
  "p cnf " ++ toString problem.variableCount ++ " " ++ toString problem.clauses.length ++ "\n" ++
    String.join (names.map fun (number, name) =>
      "c " ++ name ++ " -> #" ++ toString number ++ "\n") ++
    String.join (problem.clauses.map clauseLine)

end Entailment.Dimacs
