import Entailment.FirstOrder.EliminationOrder
import Entailment.Proofs.FirstOrder.GreedyOrder
import Entailment.Proofs.FirstOrder.StoreOperations
import Mathlib.Combinatorics.SimpleGraph.Basic
import Mathlib.Data.List.Sym
import Mathlib.Data.Set.Card

/-!
# Interactions of predicates as a graph

Two different predicates interact when a clause mentions both.  This is a relation between
predicates, and eliminating a predicate is an operation on such relations: its neighbours
interact from then on, and it interacts with none.  What a greedy order and a width mean is
said on the relations.

The lists of neighbours that the program works on represent such a relation.  They do so for
every store that is consistent and after every elimination, so that numbers of neighbours and
of missing interactions can be counted on either side.
-/

namespace Entailment.FirstOrder

/-- A relation of different predicates, which interact with each other. -/
abbrev Interactions := SimpleGraph PredicateSymbol

namespace Interactions

variable (interactions : Interactions)

/-- The interactions after a predicate has been eliminated: those of other predicates, and the
neighbours of the predicate interact. -/
def eliminate (p : PredicateSymbol) : Interactions where
  Adj q r := q ≠ r ∧ q ≠ p ∧ r ≠ p ∧
    (interactions.Adj q r ∨ (interactions.Adj p q ∧ interactions.Adj p r))
  symm := ⟨fun _ _ joined => ⟨joined.1.symm, joined.2.2.1, joined.2.1,
    joined.2.2.2.imp (·.symm) And.symm⟩⟩
  loopless := ⟨fun _ joined => joined.1 rfl⟩

/-- The interactions after some predicates have been eliminated one after the other. -/
def eliminateAll (predicates : List PredicateSymbol) : Interactions :=
  predicates.foldl eliminate interactions

/-- The number of neighbours of a predicate. -/
noncomputable def degree (p : PredicateSymbol) : Nat := (interactions.neighborSet p).ncard

/-- The number of pairs of neighbours of a predicate that do not interact. -/
noncomputable def fillIn (p : PredicateSymbol) : Nat :=
  Set.ncard {pair | pair ∈ interactionsᶜ.edgeSet ∧ ∀ q ∈ pair, interactions.Adj p q}

theorem adj_eliminate {p q r : PredicateSymbol} :
    (interactions.eliminate p).Adj q r ↔ q ≠ r ∧ q ≠ p ∧ r ≠ p ∧
      (interactions.Adj q r ∨ (interactions.Adj p q ∧ interactions.Adj p r)) :=
  Iff.rfl

end Interactions

/-- The predicates of a store that interact. -/
def Store.interactions (store : Store) : Interactions where
  Adj p q := p ≠ q ∧ ∃ c ∈ store, c.mentions p = true ∧ c.mentions q = true
  symm := ⟨fun _ _ joined => joined.imp Ne.symm (Exists.imp fun _ => And.imp_right And.symm)⟩
  loopless := ⟨fun _ joined => joined.1 rfl⟩

/-! ## Pairs of a list -/

section

variable {α : Type}

/-- The pairs of an element and a later one, without their order. -/
theorem mem_map_laterPairs {l : List α} (nodup : l.Nodup) {a b : α} :
    s(a, b) ∈ (laterPairs l).map (fun pair => s(pair.1, pair.2)) ↔ a ∈ l ∧ b ∈ l ∧ a ≠ b := by
  induction l with
  | nil => simp [laterPairs]
  | cons c rest ih =>
      obtain ⟨absent, restNodup⟩ := List.nodup_cons.mp nodup
      simp only [laterPairs, List.map_append, List.mem_append, ih restNodup, List.map_map,
        List.mem_map, Function.comp_apply, Sym2.eq_iff, List.mem_cons]
      grind

theorem nodup_map_laterPairs {l : List α} (nodup : l.Nodup) :
    ((laterPairs l).map (fun pair => s(pair.1, pair.2))).Nodup := by
  refine List.Sublist.nodup ?_ nodup.sym2
  clear nodup
  induction l with
  | nil => simp [laterPairs]
  | cons a rest ih =>
      simp only [laterPairs, List.map_append, List.map_map, List.sym2, List.map_cons]
      exact (List.sublist_cons_self _ _).append ih

theorem mem_laterPairs {l : List α} (nodup : l.Nodup) {pair : α × α} (mem : pair ∈ laterPairs l) :
    pair.1 ∈ l ∧ pair.2 ∈ l ∧ pair.1 ≠ pair.2 :=
  (mem_map_laterPairs nodup).mp (List.mem_map_of_mem mem)

end

namespace InteractionGraph

variable {graph : InteractionGraph}
variable {p q : PredicateSymbol}

/-! ## Neighbours -/

theorem neighbours_of_not_mem (absent : p ∉ graph.nodes) : graph.neighbours p = [] := by
  have notFound : (graph.adjacency.find? fun entry => decide (entry.1 = p)) = none := by
    simp only [List.find?_eq_none, decide_eq_true_eq]
    intro entry mem same
    exact absent (same ▸ List.mem_map_of_mem mem)
  exact congrArg (fun entry => (Option.map Prod.snd entry).getD []) notFound

/-- Changing the lists of neighbours, each in its own way. -/
theorem neighbours_map (change : PredicateSymbol → List PredicateSymbol → List PredicateSymbol)
    (mem : p ∈ graph.nodes) :
    neighbours ⟨graph.adjacency.map fun entry => (entry.1, change entry.1 entry.2)⟩ p =
      change p (graph.neighbours p) := by
  obtain ⟨adjacency⟩ := graph
  induction adjacency with
  | nil => cases mem
  | cons entry rest ih =>
      by_cases same : entry.1 = p
      · simp [neighbours, same]
      · have inRest : p ∈ nodes ⟨rest⟩ :=
          (List.mem_cons.mp mem).resolve_left (Ne.symm same)
        simpa [neighbours, same] using ih inRest

/-- What joining two predicates adds to the neighbours of a predicate. -/
theorem neighbours_join {pair : PredicateSymbol × PredicateSymbol} (mem : p ∈ graph.nodes) :
    (graph.join pair).neighbours p =
      if p = pair.1 then Sorted.insert pair.2 (graph.neighbours p)
      else if p = pair.2 then Sorted.insert pair.1 (graph.neighbours p)
      else graph.neighbours p := by
  rw [← neighbours_map (fun p neighbours =>
    if p = pair.1 then Sorted.insert pair.2 neighbours
    else if p = pair.2 then Sorted.insert pair.1 neighbours else neighbours) mem]
  refine congrArg (fun adjacency => neighbours ⟨adjacency⟩ p)
    (List.map_congr_left fun entry _ => ?_)
  obtain ⟨q, neighbours⟩ := entry
  simp only
  split
  · rfl
  · split <;> rfl

theorem mem_neighbours_join {pair : PredicateSymbol × PredicateSymbol} (mem : p ∈ graph.nodes)
    (different : pair.1 ≠ pair.2) :
    q ∈ (graph.join pair).neighbours p ↔
      q ∈ graph.neighbours p ∨ s(p, q) = s(pair.1, pair.2) := by
  rw [neighbours_join mem, Sym2.eq_iff]
  split
  · rename_i isFirst
    simp [isFirst, different, or_comm]
  · split
    · rename_i isSecond
      simp [isSecond, different.symm, or_comm]
    · rename_i notFirst notSecond
      simp [notFirst, notSecond]

/-- What joining all pairs of some predicates adds to the neighbours of a predicate. -/
theorem mem_neighbours_joinAll {predicates : List PredicateSymbol} (nodup : predicates.Nodup)
    (mem : p ∈ graph.nodes) :
    q ∈ (graph.joinAll predicates).neighbours p ↔
      q ∈ graph.neighbours p ∨ (p ∈ predicates ∧ q ∈ predicates ∧ p ≠ q) := by
  rw [← mem_map_laterPairs nodup]
  have different : ∀ pair ∈ laterPairs predicates, pair.1 ≠ pair.2 :=
    fun pair pairMem => (mem_laterPairs nodup pairMem).2.2
  unfold joinAll
  -- The pairs are joined in turn, and that they are pairs of different predicates is all it takes.
  generalize laterPairs predicates = pairs at different ⊢
  induction pairs generalizing graph with
  | nil => simp
  | cons pair rest ih =>
      obtain ⟨first, others⟩ := List.forall_mem_cons.mp different
      have stillNode : p ∈ (graph.join pair).nodes := by rwa [nodes_join]
      refine (ih stillNode others).trans ?_
      rw [mem_neighbours_join mem first, List.map_cons, List.mem_cons, or_assoc]

theorem isIncreasing_neighbours_joinAll
    (increasing : ∀ p, Sorted.IsIncreasing (graph.neighbours p))
    (predicates : List PredicateSymbol) (p : PredicateSymbol) :
    Sorted.IsIncreasing ((graph.joinAll predicates).neighbours p) := by
  unfold joinAll
  generalize laterPairs predicates = pairs
  induction pairs generalizing graph with
  | nil => exact increasing p
  | cons pair rest ih =>
      refine ih fun q => ?_
      by_cases mem : q ∈ graph.nodes
      · rw [neighbours_join mem]
        split
        · exact Sorted.isIncreasing_insert _ (increasing q)
        · split
          · exact Sorted.isIncreasing_insert _ (increasing q)
          · exact increasing q
      · rw [neighbours_of_not_mem (by rwa [nodes_join])]
        exact .nil

/-- Removing a predicate takes it off the lists of the others. -/
theorem neighbours_remove (different : q ≠ p) :
    (graph.remove p).neighbours q = (graph.neighbours q).filter fun r => decide (r ≠ p) := by
  obtain ⟨adjacency⟩ := graph
  induction adjacency with
  | nil => rfl
  | cons entry rest ih =>
      by_cases isIt : entry.1 = q
      · simp [neighbours, remove, isIt, different]
      · by_cases removed : entry.1 = p
        · simpa [neighbours, remove, isIt, removed, different.symm] using ih
        · simpa [neighbours, remove, isIt, removed] using ih

/-- The lists of neighbours represent a relation: the list of a predicate has exactly its
neighbours, each of them once. -/
structure Represents (graph : InteractionGraph) (interactions : Interactions) : Prop where
  increasing : ∀ p, Sorted.IsIncreasing (graph.neighbours p)
  mem_neighbours : ∀ p q, q ∈ graph.neighbours p ↔ interactions.Adj p q

namespace Represents

variable {interactions : Interactions} (represents : graph.Represents interactions)

include represents

theorem mem_nodes_of_adj (joined : interactions.Adj p q) : p ∈ graph.nodes := by
  by_contra absent
  have listed := (represents.mem_neighbours p q).mpr joined
  rw [neighbours_of_not_mem absent] at listed
  cases listed

/-- Eliminating a predicate on the lists is eliminating it. -/
theorem eliminate (p : PredicateSymbol) :
    (graph.eliminate p).Represents (interactions.eliminate p) := by
  have nodes := graph.nodes_eliminate p
  have noNeighbours {q : PredicateSymbol} (absent : q ∉ graph.nodes ∨ q = p) :
      (graph.eliminate p).neighbours q = [] := by
    refine neighbours_of_not_mem fun mem => ?_
    rw [nodes, List.mem_filter, decide_eq_true_eq] at mem
    exact absent.elim (· mem.1) mem.2
  have others {q : PredicateSymbol} (different : q ≠ p) :
      (graph.eliminate p).neighbours q =
        ((graph.joinAll (graph.neighbours p)).neighbours q).filter fun r => decide (r ≠ p) :=
    neighbours_remove different
  constructor
  · intro q
    by_cases same : q = p
    · rw [noNeighbours (.inr same)]
      exact .nil
    · rw [others same]
      exact (isIncreasing_neighbours_joinAll represents.increasing _ q).filter _
  · intro q r
    rw [interactions.adj_eliminate]
    by_cases isNode : q ∈ graph.nodes ∧ q ≠ p
    · rw [others isNode.2, List.mem_filter, decide_eq_true_eq,
        mem_neighbours_joinAll (represents.increasing p).nodup isNode.1, represents.mem_neighbours,
        represents.mem_neighbours, represents.mem_neighbours]
      constructor
      · rintro ⟨joined | ⟨first, second, different⟩, rOther⟩
        · exact ⟨joined.ne, isNode.2, rOther, .inl joined⟩
        · exact ⟨different, isNode.2, rOther, .inr ⟨first, second⟩⟩
      · rintro ⟨different, -, rOther, joined | ⟨first, second⟩⟩
        · exact ⟨.inl joined, rOther⟩
        · exact ⟨.inr ⟨first, second, different⟩, rOther⟩
    · rw [noNeighbours (by rwa [not_and_or, not_not] at isNode)]
      simp only [List.not_mem_nil, false_iff]
      rintro ⟨-, qOther, -, joined | ⟨first, -⟩⟩
      · exact isNode ⟨represents.mem_nodes_of_adj joined, qOther⟩
      · exact isNode ⟨represents.mem_nodes_of_adj first.symm, qOther⟩

/-- The number of listed neighbours is the number of neighbours. -/
theorem degree_eq (p : PredicateSymbol) : graph.degree p = interactions.degree p := by
  have listed : interactions.neighborSet p = ↑(graph.neighbours p).toFinset := by
    ext q
    simp [represents.mem_neighbours]
  rw [Interactions.degree, listed, Set.ncard_coe_finset,
    List.toFinset_card_of_nodup (represents.increasing p).nodup]
  rfl

/-- The number of listed pairs that are missing is the number of missing pairs. -/
theorem fillIn_eq (p : PredicateSymbol) : graph.fillIn p = interactions.fillIn p := by
  have nodup := (represents.increasing p).nodup
  -- The relation knows no first and second, so the listed pairs are counted without their order.
  let pairs := (laterPairs (graph.neighbours p)).map fun pair => s(pair.1, pair.2)
  classical
  have listed : {pair | pair ∈ interactionsᶜ.edgeSet ∧ ∀ q ∈ pair, interactions.Adj p q} =
      ↑(pairs.filter fun pair => decide (pair ∉ interactions.edgeSet)).toFinset := by
    ext pair
    induction pair with
    | h q r =>
        have inPairs : s(q, r) ∈ pairs ↔
            interactions.Adj p q ∧ interactions.Adj p r ∧ q ≠ r := by
          rw [← represents.mem_neighbours, ← represents.mem_neighbours]
          exact mem_map_laterPairs nodup
        simp only [Set.mem_ofPred_eq, SimpleGraph.mem_edgeSet, SimpleGraph.compl_adj, Sym2.mem_iff,
          forall_eq_or_imp, forall_eq, List.coe_toFinset, List.mem_filter, decide_eq_true_eq,
          inPairs]
        tauto
  have missing (pair : PredicateSymbol × PredicateSymbol) :
      (!graph.areJoined pair.1 pair.2) = decide (s(pair.1, pair.2) ∉ interactions.edgeSet) := by
    simp [areJoined, represents.mem_neighbours]
  have pairsNodup : pairs.Nodup := nodup_map_laterPairs nodup
  calc graph.fillIn p
      = pairs.countP fun pair => decide (pair ∉ interactions.edgeSet) := by
        rw [List.countP_map]
        exact List.countP_congr fun pair _ => iff_of_eq (congrArg (· = true) (missing pair))
    _ = interactions.fillIn p := by
        rw [Interactions.fillIn, listed, Set.ncard_coe_finset,
          List.toFinset_card_of_nodup (pairsNodup.filter _), List.countP_eq_length_filter]

end Represents

/-! ## The interactions of a store -/

theorem neighbours_ofNodes (predicates : List PredicateSymbol) (p : PredicateSymbol) :
    (ofNodes predicates).neighbours p = [] := by
  simp only [neighbours, ofNodes, List.find?_map]
  cases predicates.find? ((fun entry => decide (entry.1 = p)) ∘ fun q => (q, [])) <;> rfl

/-- The predicates of clauses that are joined one after the other. -/
theorem mem_neighbours_joinClauses {entries : List (Nat × Clause)} {p q : PredicateSymbol}
    (mem : p ∈ graph.nodes) :
    q ∈ (entries.foldl (fun graph entry => graph.joinAll entry.2.predicates) graph).neighbours p ↔
      q ∈ graph.neighbours p ∨
        ∃ entry ∈ entries, p ∈ entry.2.predicates ∧ q ∈ entry.2.predicates ∧ p ≠ q := by
  induction entries generalizing graph with
  | nil => simp
  | cons entry rest ih =>
      have stillNode : p ∈ (graph.joinAll entry.2.predicates).nodes := by rwa [nodes_joinAll]
      refine (ih stillNode).trans ?_
      have nodup : entry.2.predicates.Nodup := nodup_eraseDups _
      rw [mem_neighbours_joinAll nodup mem, or_assoc]
      simp only [List.mem_cons, exists_eq_or_imp]

theorem isIncreasing_neighbours_joinClauses (entries : List (Nat × Clause))
    (increasing : ∀ p, Sorted.IsIncreasing (graph.neighbours p)) (p : PredicateSymbol) :
    Sorted.IsIncreasing ((entries.foldl
      (fun graph entry => graph.joinAll entry.2.predicates) graph).neighbours p) := by
  induction entries generalizing graph with
  | nil => exact increasing p
  | cons entry rest ih => exact ih (isIncreasing_neighbours_joinAll increasing _)

/-- The graph of a consistent store represents its interactions. -/
theorem represents_ofStore {store : Store} (consistent : store.Consistent) :
    (ofStore store).Represents store.interactions := by
  have nodes := nodes_ofStore store
  have start (p : PredicateSymbol) : (ofNodes store.predicates).neighbours p = [] :=
    neighbours_ofNodes store.predicates p
  constructor
  · refine isIncreasing_neighbours_joinClauses store.toList fun p => ?_
    rw [start]
    exact .nil
  · intro p q
    by_cases isNode : p ∈ store.predicates
    · have joined := @mem_neighbours_joinClauses (ofNodes store.predicates) store.toList p q
        (by simpa [InteractionGraph.nodes, ofNodes] using isNode)
      rw [start] at joined
      refine joined.trans ?_
      simp only [List.not_mem_nil, false_or, Prod.exists, Store.mem_toList_iff,
        Store.mem_predicates_iff, Store.interactions, Store.mem_def]
      constructor
      · rintro ⟨id, c, found, pMentioned, qMentioned, different⟩
        exact ⟨different, c, ⟨id, found⟩, pMentioned, qMentioned⟩
      · rintro ⟨different, c, ⟨id, found⟩, pMentioned, qMentioned⟩
        exact ⟨id, c, found, pMentioned, qMentioned, different⟩
    · rw [neighbours_of_not_mem (by rwa [nodes])]
      simp only [List.not_mem_nil, false_iff]
      rintro ⟨-, c, mem, mentioned, -⟩
      exact isNode (consistent.mem_predicates mem mentioned)

end InteractionGraph

end Entailment.FirstOrder
