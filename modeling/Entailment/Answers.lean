import Entailment.Error
import Entailment.Order.Sorted

/-!
# Answers to a query

A query with free variables is answered by tuples of printed terms, one term
for each variable.  While a search runs the tuples are collected; what the
caller gets is the same table.  The tuples are a set in the order of their
texts.
-/

namespace Entailment

/-- The answers to a query: its variables in the order of their first
occurrence, and the set of tuples found for them. -/
structure Answers where
  vars : List String
  tuples : List (List String)
  deriving DecidableEq, Repr

namespace Answers

/-- No answer has been found for these variables. -/
def start (vars : List String) : Answers := ⟨vars, []⟩

/-- How many values a tuple has. -/
def arity (answers : Answers) : Nat := answers.vars.length

/-- How many tuples there are. -/
def size (answers : Answers) : Nat := answers.tuples.length

/-- Add a tuple.  The flag says whether it is new. -/
def add (tuple : List String) (answers : Answers) : Except Error (Bool × Answers) :=
  if tuple.length ≠ answers.arity then
    .error (.invariant (.answerLength tuple.length answers.arity))
  else
    .ok (!Sorted.contains answers.tuples tuple,
      { answers with tuples := Sorted.insert tuple answers.tuples })

/-- The value of a variable in the tuple of the given row. -/
def get? (row : Nat) (name : String) (answers : Answers) : Option String := do
  let column ← answers.vars.findIdx? (· == name)
  let tuple ← answers.tuples[row]?
  tuple[column]?

/-- Whether a tuple is among the answers. -/
def contains (tuple : List String) (answers : Answers) : Bool :=
  answers.tuples.contains tuple

/-- The line of a tuple, such as `{?x=a, ?y=b}`. -/
def tupleLine (vars tuple : List String) : String :=
  "\x7b" ++ String.intercalate ", "
    ((vars.zip tuple).map fun (name, value) => "?" ++ name ++ "=" ++ value) ++ "\x7d\n"

/-- The lines of all tuples in order. -/
def render (answers : Answers) : String :=
  String.join (answers.tuples.map (tupleLine answers.vars))

end Answers

end Entailment
