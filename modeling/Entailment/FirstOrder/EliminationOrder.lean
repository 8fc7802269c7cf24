import Entailment.FirstOrder.Store
import Entailment.Order.Sorted

/-!
# The order of elimination

Predicates are eliminated one after the other, and eliminating one can make
clauses that join the predicates it occurs with.  Two predicates interact when
a clause has both.  The order is chosen greedily on the graph of interactions:
next comes the predicate whose elimination adds the fewest interactions between
its neighbours, among those the one with the fewest neighbours, and among those
the one with the smallest number.  The width of an order is the largest number
of neighbours that a predicate has when its turn comes.

The predicate that collects answers is eliminated last.  A planner keeps the
last order it has computed and uses it as long as the store has the same
predicates and the same predicate collects answers.
-/

namespace Entailment.FirstOrder

/-- A list of all pairs of an element and a later one. -/
def laterPairs {α : Type} : List α → List (α × α)
  | [] => []
  | a :: rest => rest.map (fun b => (a, b)) ++ laterPairs rest

/-- An undirected graph on predicates.  The predicates stand in increasing order,
each with its neighbours in increasing order. -/
structure InteractionGraph where
  adjacency : List (PredicateSymbol × List PredicateSymbol)
  deriving DecidableEq, Repr

namespace InteractionGraph

/-- The predicates of a graph. -/
def nodes (graph : InteractionGraph) : List PredicateSymbol :=
  graph.adjacency.map Prod.fst

/-- The neighbours of a predicate. -/
def neighbours (graph : InteractionGraph) (p : PredicateSymbol) : List PredicateSymbol :=
  ((graph.adjacency.find? fun (q, _) => decide (q = p)).map Prod.snd).getD []

/-- Whether two predicates interact. -/
def areJoined (graph : InteractionGraph) (p q : PredicateSymbol) : Bool :=
  (graph.neighbours p).contains q

/-- The number of neighbours of a predicate. -/
def degree (graph : InteractionGraph) (p : PredicateSymbol) : Nat :=
  (graph.neighbours p).length

/-- The edges of a graph, each once with the smaller predicate first. -/
def edges (graph : InteractionGraph) : List (PredicateSymbol × PredicateSymbol) :=
  graph.adjacency.flatMap fun (p, neighbours) =>
    (neighbours.filter fun q => decide (p.index < q.index)).map fun q => (p, q)

/-- The graph of some predicates without interactions. -/
def ofNodes (predicates : List PredicateSymbol) : InteractionGraph :=
  ⟨predicates.map fun p => (p, [])⟩

/-- Let two different predicates interact. -/
def join (graph : InteractionGraph) (pair : PredicateSymbol × PredicateSymbol) :
    InteractionGraph :=
  ⟨graph.adjacency.map fun (p, neighbours) =>
    if p = pair.1 then (p, Sorted.insert pair.2 neighbours)
    else if p = pair.2 then (p, Sorted.insert pair.1 neighbours)
    else (p, neighbours)⟩

/-- Let all pairs of some predicates interact. -/
def joinAll (predicates : List PredicateSymbol) (graph : InteractionGraph) : InteractionGraph :=
  (laterPairs predicates).foldl join graph

/-- Take a predicate out of a graph. -/
def remove (p : PredicateSymbol) (graph : InteractionGraph) : InteractionGraph :=
  ⟨(graph.adjacency.filter fun (q, _) => decide (q ≠ p)).map fun (q, neighbours) =>
    (q, neighbours.filter fun r => decide (r ≠ p))⟩

/-- The graph of the predicates of a store, where the predicates of each clause
interact. -/
def ofStore (store : Store) : InteractionGraph :=
  store.toList.foldl (fun graph (_, c) => graph.joinAll c.predicates) (ofNodes store.predicates)

/-- The number of pairs of neighbours of a predicate that do not interact. -/
def fillIn (graph : InteractionGraph) (p : PredicateSymbol) : Nat :=
  (laterPairs (graph.neighbours p)).countP fun (q, r) => !graph.areJoined q r

/-- Eliminate a predicate: its neighbours interact from then on. -/
def eliminate (p : PredicateSymbol) (graph : InteractionGraph) : InteractionGraph :=
  (graph.joinAll (graph.neighbours p)).remove p

/-- Whether a predicate is to be eliminated rather than another one. -/
def isBetter (graph : InteractionGraph) (p q : PredicateSymbol) : Bool :=
  let order := (compare (graph.fillIn p) (graph.fillIn q)).then
    ((compare (graph.degree p) (graph.degree q)).then (compare p q))
  order == .lt

/-- The predicate to be eliminated next. -/
def best? (graph : InteractionGraph) : Option PredicateSymbol :=
  graph.nodes.foldl
    (fun best p =>
      match best with
      | none => some p
      | some q => if graph.isBetter p q then some p else some q)
    none

/-- Eliminate a number of predicates greedily.  The second component is the
largest number of neighbours that one of them had. -/
def minFillFrom : Nat → InteractionGraph → List PredicateSymbol × Nat
  | 0, _ => ([], 0)
  | count + 1, graph =>
      match graph.best? with
      | none => ([], 0)
      | some p =>
          let (order, width) := minFillFrom count (graph.eliminate p)
          (p :: order, max (graph.degree p) width)

/-- The greedy order of all predicates of a graph, and its width. -/
def minFill (graph : InteractionGraph) : List PredicateSymbol × Nat :=
  minFillFrom graph.nodes.length graph

end InteractionGraph

/-- An order of elimination, with the predicates and the answer predicate it was
made for. -/
structure EliminationOrder where
  order : List PredicateSymbol
  keys : List PredicateSymbol
  answer : Option PredicateSymbol
  width : Nat
  deriving DecidableEq, Repr

namespace EliminationOrder

/-- An order that is used as it is.  A predicate that is not in it is never
eliminated. -/
def fixed (order : List PredicateSymbol) : EliminationOrder :=
  ⟨order, Sorted.ofList order, none, 0⟩

/-- Move a predicate to the end of a list it is in. -/
def moveToEnd (p : PredicateSymbol) (order : List PredicateSymbol) : List PredicateSymbol :=
  if order.contains p then order.erase p ++ [p] else order

/-- The order for a store, with the answer predicate at its end. -/
def compute (store : Store) (answer : Option PredicateSymbol) : EliminationOrder :=
  let (order, width) := (InteractionGraph.ofStore store).minFill
  let order :=
    match answer with
    | some p => moveToEnd p order
    | none => order
  ⟨order, store.predicates, answer, width⟩

end EliminationOrder

/-- The order that was computed last. -/
structure Planner where
  cached : Option EliminationOrder
  deriving DecidableEq, Repr

namespace Planner

/-- No order has been computed. -/
def start : Planner := ⟨none⟩

/-- The order in the planner if it was made for the same predicates and the same
answer predicate. -/
def reusable? (store : Store) (answer : Option PredicateSymbol) (planner : Planner) :
    Option EliminationOrder :=
  planner.cached.filter fun order =>
    decide (order.answer = answer ∧ order.keys = store.predicates)

/-- The order for a store, which is computed only if the planner has none to
offer.  The flag says whether it was computed. -/
def orderFor (store : Store) (answer : Option PredicateSymbol) (planner : Planner) :
    EliminationOrder × Bool × Planner :=
  match planner.reusable? store answer with
  | some order => (order, false, planner)
  | none =>
      let order := EliminationOrder.compute store answer
      (order, true, ⟨some order⟩)

end Planner

end Entailment.FirstOrder
