import Entailment.FirstOrder.Printer

/-!
# Recorded proofs

While a search runs, a proof index records from which two clauses each clause
was resolved.  Every clause has one node, numbered in the order of first
mention, with all pairs of parents it was ever resolved from.  A clause without
parents was given.

A refutation is the node of the empty clause.  It is shown as a tree that
follows the first pair of parents of each clause, and as a graph of all pairs.
Since a clause can be resolved again from clauses that depend on it, the nodes
may form cycles; a walk through the nodes visits the parents of a node once.
-/

namespace Entailment.FirstOrder

/-- A clause of a proof and the pairs of nodes it was resolved from.  `derived`
says whether it was first met as a resolvent. -/
structure ProofNode where
  clause : Clause
  derived : Bool
  parents : List (Nat × Nat)
  deriving DecidableEq

/-- The nodes of a proof in the order of their numbers.  An index that is not
active stays empty. -/
structure ProofIndex where
  nodes : Array ProofNode
  active : Bool
  deriving DecidableEq

/-- Which clauses a graph shows: those the refutation depends on, or all. -/
inductive GraphScope where
  | refutation
  | everything
  deriving DecidableEq, Repr

namespace ProofIndex

/-- The index without nodes. -/
def start (active : Bool) : ProofIndex := ⟨#[], active⟩

/-- How many nodes there are. -/
def size (index : ProofIndex) : Nat := index.nodes.size

/-- The node of a clause. -/
def find? (c : Clause) (index : ProofIndex) : Option Nat :=
  index.nodes.findIdx? fun node => decide (node.clause = c)

/-- The node of a clause, which is a new one for a new clause. -/
def intern (derived : Bool) (c : Clause) (index : ProofIndex) : Nat × ProofIndex :=
  match index.find? c with
  | some id => (id, index)
  | none => (index.size, { index with nodes := index.nodes.push ⟨c, derived, []⟩ })

/-- Add a pair of parents to a node, unless it has the pair already. -/
def addParents (pair : Nat × Nat) (id : Nat) (index : ProofIndex) : ProofIndex :=
  { index with
    nodes := index.nodes.modify id fun node =>
      if node.parents.contains pair then node
      else { node with parents := node.parents ++ [pair] } }

/-- Record that a clause was resolved from two clauses. -/
def record (resolvent left right : Clause) (index : ProofIndex) : ProofIndex :=
  if index.active then
    let (first, index) := index.intern false left
    let (second, index) := index.intern false right
    let (id, index) := index.intern true resolvent
    index.addParents (first, second) id
  else index

/-- The node of the empty clause. -/
def refutation? (index : ProofIndex) : Option Nat := index.find? .empty

/-! ## Walking through the nodes -/

/-- A node that a walk comes to, at some distance from the start, and whether it
comes there for the first time. -/
structure Visit where
  id : Nat
  depth : Nat
  first : Bool
  deriving DecidableEq, Repr

/-- How many of the numbers below `limit` are not in a list. -/
def unseen (limit : Nat) (seen : List Nat) : Nat :=
  (List.range limit).countP fun id => !seen.contains id

/-- One more number that is seen leaves fewer unseen ones. -/
theorem unseen_cons_lt {limit id : Nat} {seen : List Nat} (bound : id < limit)
    (isNew : seen.contains id = false) : unseen limit (id :: seen) < unseen limit seen := by
  unfold unseen
  have lost : ∀ l : List Nat, id ∈ l →
      l.countP (fun other => !(id :: seen).contains other) <
        l.countP fun other => !seen.contains other := by
    intro l
    induction l with
    | nil => intro mem; cases mem
    | cons other rest ih =>
        intro mem
        have restLe : rest.countP (fun other => !(id :: seen).contains other) ≤
            rest.countP fun other => !seen.contains other :=
          List.countP_mono_left fun x _ => by simp
        simp only [List.countP_cons]
        by_cases same : other = id
        · subst same
          have gone : (!(other :: seen).contains other) = false := by simp
          have kept : (!seen.contains other) = true := by rw [isNew]; rfl
          simp only [gone, kept, Bool.false_eq_true, if_false, if_true]
          omega
        · have restLt := ih ((List.mem_cons.mp mem).resolve_left fun equal => same equal.symm)
          have headSame : (id :: seen).contains other = seen.contains other := by
            simp [same]
          rw [headSame]
          omega
  exact lost _ (List.mem_range.mpr bound)

/-- The visits of a walk that goes from a node to its children before it goes
on.  `seen` are the nodes visited so far, and `agenda` the nodes to come with
their distances. -/
def walk (limit : Nat) (children : Nat → List Nat) (seen : List Nat)
    (agenda : List (Nat × Nat)) : List Visit :=
  match agenda with
  | [] => []
  | (id, depth) :: rest =>
      if bounds : id < limit ∧ seen.contains id = false then
        have := unseen_cons_lt bounds.1 bounds.2
        ⟨id, depth, true⟩ ::
          walk limit children (id :: seen)
            ((children id).map (fun child => (child, depth + 1)) ++ rest)
      else ⟨id, depth, false⟩ :: walk limit children seen rest
termination_by (unseen limit seen, agenda.length)

/-- The first pair of parents of a node, as a list. -/
def firstParents (index : ProofIndex) (id : Nat) : List Nat :=
  match index.nodes[id]? with
  | some ⟨_, _, (left, right) :: _⟩ => [left, right]
  | _ => []

/-- All parents of a node, those of later pairs first and of each pair the second
parent first. -/
def allParents (index : ProofIndex) (id : Nat) : List Nat :=
  match index.nodes[id]? with
  | some node => (node.parents.flatMap fun (left, right) => [left, right]).reverse
  | none => []

/-- The walk through the first pairs of parents from the refutation. -/
def treeWalk? (index : ProofIndex) : Option (List Visit) :=
  index.refutation?.map fun root => walk index.size index.firstParents [] [(root, 0)]

/-- The number of derived clauses in the tree of the refutation. -/
def length? (index : ProofIndex) : Option Nat :=
  index.treeWalk?.map fun visits =>
    visits.countP fun visit => visit.first && !(index.firstParents visit.id).isEmpty

/-! ## Showing proofs -/

/-- The text of the clause of a node. -/
def clauseText (signature : Signature) (index : ProofIndex) (id : Nat) : String :=
  match index.nodes[id]? with
  | some node => signature.renderClause node.clause
  | none => ""

/-- The line of a visit in a tree. -/
def treeLine (signature : Signature) (index : ProofIndex) (visit : Visit) : String :=
  String.join (List.replicate visit.depth "  ") ++ index.clauseText signature visit.id ++
    (if !visit.first then " [ALREADY SHOWN]\n"
    else if (index.firstParents visit.id).isEmpty then " <- [GIVEN]\n"
    else " <-\n")

/-- The tree of the refutation, each clause followed by its parents. -/
def renderTree? (signature : Signature) (index : ProofIndex) : Option String :=
  index.treeWalk?.map fun visits => String.join (visits.map (index.treeLine signature))

/-- The lines of a node in a graph. -/
def graphLines (signature : Signature) (index : ProofIndex) (id : Nat) : String :=
  match index.nodes[id]? with
  | none => ""
  | some node =>
      toString id ++ " [shape=box,label=\"" ++ signature.renderClause node.clause ++
        "\\ninference: " ++ (if node.derived then "res" else "given") ++ "\"]\n" ++
        String.join (node.parents.map fun (left, right) =>
          toString left ++ " -> " ++ toString id ++ "\n" ++
            toString right ++ " -> " ++ toString id ++ "\n")

/-- The nodes that a graph shows, in the order in which it shows them. -/
def graphNodes (scope : GraphScope) (index : ProofIndex) : List Nat :=
  match scope with
  | .everything => List.range index.size
  | .refutation =>
      let visits :=
        walk index.size index.allParents [] (index.refutation?.toList.map fun root => (root, 0))
      (visits.filter (·.first)).map (·.id)

/-- The graph of a proof in the language of Graphviz. -/
def renderGraph (signature : Signature) (scope : GraphScope) (index : ProofIndex) : String :=
  "digraph proof \x7b\nrankdir = TB\ngraph [splines=true overlap=false];\n" ++
    String.join ((index.graphNodes scope).map (index.graphLines signature)) ++ "\x7d"

end ProofIndex

end Entailment.FirstOrder
