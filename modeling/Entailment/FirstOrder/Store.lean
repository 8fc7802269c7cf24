import Entailment.Error
import Entailment.FirstOrder.Clause
import Std.Data.TreeMap

/-!
# The clause store

A store holds the clauses of a knowledge base, each of them once.  A clause gets
a number when it is inserted, numbers go up and are never used again, and
clauses are listed in the order of their numbers.

For every predicate the store lists the clauses with a positive and those with
a negative literal on it.  A clause with several such literals is listed once
for each sign.  A predicate stays listed after its last clause is gone.

A store is a value, so the store that a query works on is a copy from the
start.
-/

namespace Entailment.FirstOrder

/-- The numbers of the clauses with a positive and with a negative literal on
some predicate, in increasing order. -/
structure Occurrences where
  positive : List Nat
  negative : List Nat
  deriving DecidableEq, Repr

namespace Occurrences

/-- No clause is listed. -/
def empty : Occurrences := ⟨[], []⟩

/-- Whether no clause is listed. -/
def isEmpty (occurrences : Occurrences) : Bool :=
  occurrences.positive.isEmpty && occurrences.negative.isEmpty

/-- How many entries there are on both sides. -/
def size (occurrences : Occurrences) : Nat :=
  occurrences.positive.length + occurrences.negative.length

/-- Put a number at the end of a list, unless it stands there already. -/
def note (id : Nat) (ids : List Nat) : List Nat :=
  if ids.getLast? = some id then ids else ids ++ [id]

/-- List a clause for a literal of the given sign. -/
def add (sign : Sign) (id : Nat) (occurrences : Occurrences) : Occurrences :=
  match sign with
  | .positive => { occurrences with positive := note id occurrences.positive }
  | .negative => { occurrences with negative := note id occurrences.negative }

/-- Take a clause off both lists. -/
def erase (id : Nat) (occurrences : Occurrences) : Occurrences :=
  ⟨occurrences.positive.filter (· != id), occurrences.negative.filter (· != id)⟩

end Occurrences

/-- The occurrences of every predicate that the store has met. -/
abbrev PredicateIndex := Std.TreeMap PredicateSymbol Occurrences

namespace PredicateIndex

/-- The occurrences of a predicate. -/
def occurrences (index : PredicateIndex) (p : PredicateSymbol) : Occurrences :=
  index[p]?.getD .empty

/-- List a clause under one of its literals. -/
def addLiteral (id : Nat) (index : PredicateIndex) (literal : Literal Atom) : PredicateIndex :=
  let p := literal.atom.predicate
  index.insert p ((index.occurrences p).add literal.sign id)

/-- Take a clause off the lists of its predicates, on each of which it has to
stand. -/
def eraseClause (id : Nat) : List PredicateSymbol → PredicateIndex → Except Error PredicateIndex
  | [], index => .ok index
  | p :: rest, index =>
      match index[p]? with
      | none => .error (.invariant (.unindexedPredicate p.index id))
      | some occurrences =>
          let erased := occurrences.erase id
          if erased.size = occurrences.size then
            .error (.invariant (.unlistedClause id p.index))
          else eraseClause id rest (index.insert p erased)

end PredicateIndex

/-- The clauses on one predicate: those with a positive and those with a negative
literal on it. -/
structure Bucket where
  positive : List Clause
  negative : List Clause
  deriving DecidableEq

namespace Bucket

/-- The bucket without clauses. -/
def empty : Bucket := ⟨[], []⟩

/-- How many entries there are on both sides. -/
def size (bucket : Bucket) : Nat := bucket.positive.length + bucket.negative.length

/-- Whether there is no clause. -/
def isEmpty (bucket : Bucket) : Bool := bucket.size == 0

/-- The clauses of two buckets. -/
def append (first second : Bucket) : Bucket :=
  ⟨first.positive ++ second.positive, first.negative ++ second.negative⟩

end Bucket

/-- A numbered set of clauses, indexed by predicate.  `slots` holds the clause of
every number that is still in the store, `ids` the number of every such clause,
and `live` counts them. -/
structure Store where
  slots : Array (Option Clause)
  ids : Std.TreeMap Clause Nat
  index : PredicateIndex
  live : Nat

namespace Store

/-- The store without clauses. -/
def empty : Store := ⟨#[], ∅, ∅, 0⟩

/-- The clause of a number. -/
def get? (id : Nat) (store : Store) : Option Clause :=
  store.slots[id]?.join

/-- Whether a clause is in the store. -/
def contains (c : Clause) (store : Store) : Bool :=
  store.ids.contains c

/-- Whether the empty clause is in the store, which then has no model. -/
def containsEmpty (store : Store) : Bool := store.contains .empty

/-- How many clauses there are. -/
def size (store : Store) : Nat := store.live

/-- The clauses with their numbers, in the order of the numbers. -/
def toList (store : Store) : List (Nat × Clause) :=
  store.slots.toList.zipIdx.filterMap fun (slot, id) => slot.map fun c => (id, c)

/-- The predicates that the store has met, in the order of their numbers. -/
def predicates (store : Store) : List PredicateSymbol := store.index.keys

/-- The occurrences of a predicate, if the store has met it. -/
def occurrences? (p : PredicateSymbol) (store : Store) : Option Occurrences :=
  store.index[p]?

/-- Insert a clause.  The number returned is the one it gets, and there is none
for a clause that is in the store already. -/
def insert (c : Clause) (store : Store) : Option Nat × Store :=
  if store.contains c then (none, store)
  else
    let id := store.slots.size
    (some id,
      { slots := store.slots.push (some c)
        ids := store.ids.insert c id
        index := c.literals.foldl (PredicateIndex.addLiteral id) store.index
        live := store.live + 1 })

/-- Insert some clauses one after the other. -/
def insertAll (clauses : List Clause) (store : Store) : Store :=
  clauses.foldl (fun store c => (store.insert c).2) store

/-- Remove the clause of a number. -/
def remove (id : Nat) (store : Store) : Except Error (Clause × Store) :=
  match store.get? id with
  | none => .error (.invariant (.missingClause id))
  | some c =>
      match store.index.eraseClause id c.predicates with
      | .error error => .error error
      | .ok index =>
          .ok (c,
            { slots := store.slots.setIfInBounds id none
              ids := store.ids.erase c
              index := index
              live := store.live - 1 })

/-- Remove the clauses of some numbers. -/
def removeAll : List Nat → Store → Except Error Store
  | [], store => .ok store
  | id :: rest, store =>
      match store.remove id with
      | .error error => .error error
      | .ok (_, store) => removeAll rest store

/-- Remove every clause with a literal on a predicate.  A clause with literals of
both signs is on both sides of the bucket. -/
def takeBucket (p : PredicateSymbol) (store : Store) : Except Error (Bucket × Store) :=
  let occurrences := store.index.occurrences p
  match store.removeAll (occurrences.positive ++ occurrences.negative).eraseDups with
  | .error error => .error error
  | .ok rest =>
      .ok (⟨occurrences.positive.filterMap (store.get? ·),
        occurrences.negative.filterMap (store.get? ·)⟩, rest)

end Store

end Entailment.FirstOrder
