import Entailment.Propositional.Level

/-!
# Numbered names

The names of a propositional knowledge base are numbered from one in the order
in which they are first met.  Zero is no name: it ends the clauses of a DIMACS
problem.  The numbers have no bound here, and fewer than `2 ^ 32` names are assumed,
so that their numbers fit into words of 32 bits.
-/

namespace Entailment.Propositional

/-- Names in the order of their numbers. -/
structure Vocabulary where
  names : Array String
  deriving DecidableEq

namespace Vocabulary

/-- The vocabulary without names. -/
def empty : Vocabulary := ⟨#[]⟩

/-- How many names there are, which is also the largest number in use. -/
def size (vocabulary : Vocabulary) : Nat := vocabulary.names.size

/-- The number of a name. -/
def number? (name : String) (vocabulary : Vocabulary) : Option Nat :=
  (vocabulary.names.findIdx? (· == name)).map (· + 1)

/-- The name of a number. -/
def name? (number : Nat) (vocabulary : Vocabulary) : Option String :=
  match number with
  | 0 => none
  | index + 1 => vocabulary.names[index]?

/-- The number of a name, which is a new number for a new name. -/
def intern (name : String) (vocabulary : Vocabulary) : Nat × Vocabulary :=
  match vocabulary.number? name with
  | some number => (number, vocabulary)
  | none => (vocabulary.size + 1, ⟨vocabulary.names.push name⟩)

/-- The names with their numbers, in the order of the numbers. -/
def toList (vocabulary : Vocabulary) : List (Nat × String) :=
  vocabulary.names.toList.zipIdx.map fun (name, index) => (index + 1, name)

/-- Replace the names of a formula by their numbers, from left to right. -/
def internFormula : Proposition → Vocabulary → Formula Empty Nat × Vocabulary
  | .truth value, vocabulary => (.truth value, vocabulary)
  | .atom name, vocabulary =>
      let (number, vocabulary) := vocabulary.intern name
      (.atom number, vocabulary)
  | .not body, vocabulary =>
      let (body, vocabulary) := internFormula body vocabulary
      (.not body, vocabulary)
  | .binary connective left right, vocabulary =>
      let (left, vocabulary) := internFormula left vocabulary
      let (right, vocabulary) := internFormula right vocabulary
      (.binary connective left right, vocabulary)
  | .quantified _ binder _, _ => nomatch binder

end Vocabulary

end Entailment.Propositional
