/-!
# Sorted lists without repetitions

A finite set over a type with a comparison function is kept as the list of its
elements in increasing order, each of them once.  Two such lists hold the same
elements exactly when they are equal, and the order in which they are printed
is the order of the elements.

The functions below build such lists.  They assume nothing about the
comparison; that their results are increasing is a fact about lawful
comparisons only.
-/

namespace Entailment.Sorted

variable {α : Type} [Ord α]

/-- `a` comes no later than `b`. -/
def le (a b : α) : Bool :=
  (compare a b).isLE

/-- Keep one element of every run of neighbours that compare equal. -/
def dropRepeats : List α → List α
  | [] => []
  | [a] => [a]
  | a :: b :: rest =>
      if compare a b = .eq then dropRepeats (b :: rest)
      else a :: dropRepeats (b :: rest)

/-- The elements of a list in increasing order, each of them once. -/
def ofList (elements : List α) : List α :=
  dropRepeats (elements.mergeSort le)

/-- The elements of two sets. -/
def union (left right : List α) : List α :=
  ofList (left ++ right)

/-- Add one element to a set. -/
def insert (a : α) : List α → List α
  | [] => [a]
  | b :: rest =>
      match compare a b with
      | .lt => a :: b :: rest
      | .eq => b :: rest
      | .gt => b :: insert a rest

/-- Whether an element belongs to a set. -/
def contains (elements : List α) (a : α) : Bool :=
  elements.any fun b => compare a b == .eq

end Entailment.Sorted
