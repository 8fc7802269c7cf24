import Entailment.FirstOrder.EliminationOrder
import Entailment.Proofs.FirstOrder.RenumberedClauses
import Entailment.Proofs.FirstOrder.StoreIndex

/-!
# Renumbered predicates and the greedy order

The greedy order depends on which predicates occur together and, where this decides
nothing, on the order of their numbers.  So when predicates are renumbered in order,
the greedy order is renumbered.
-/

namespace Entailment.FirstOrder

theorem laterPairs_map {α γ : Type} (f : α → γ) (l : List α) :
    laterPairs (l.map f) = (laterPairs l).map (Prod.map f f) := by
  induction l with
  | nil => rfl
  | cons a rest ih => simp [laterPairs, ih, Function.comp_def]

namespace InteractionGraph

variable (ρ : Renumbering)

/-- The graph of the renumbered predicates. -/
def renumber (ρ : Renumbering) (graph : InteractionGraph) : InteractionGraph :=
  ⟨graph.adjacency.map fun (p, neighbours) => (ρ.onPredicate p, neighbours.map ρ.onPredicate)⟩

variable (graph : InteractionGraph)

@[simp]
theorem nodes_renumber : (graph.renumber ρ).nodes = graph.nodes.map ρ.onPredicate := by
  simp [nodes, renumber]

@[simp]
theorem neighbours_renumber (p : PredicateSymbol) :
    (graph.renumber ρ).neighbours (ρ.onPredicate p) =
      (graph.neighbours p).map ρ.onPredicate := by
  obtain ⟨adjacency⟩ := graph
  simp only [neighbours, renumber, List.find?_map, Function.comp_def, Renumbering.onPredicate_inj]
  cases adjacency.find? fun entry => decide (entry.1 = p) <;> rfl

@[simp]
theorem degree_renumber (p : PredicateSymbol) :
    (graph.renumber ρ).degree (ρ.onPredicate p) = graph.degree p := by
  simp [degree]

@[simp]
theorem areJoined_renumber (p q : PredicateSymbol) :
    (graph.renumber ρ).areJoined (ρ.onPredicate p) (ρ.onPredicate q) = graph.areJoined p q := by
  rw [Bool.eq_iff_iff]
  simp [areJoined]

@[simp]
theorem fillIn_renumber (p : PredicateSymbol) :
    (graph.renumber ρ).fillIn (ρ.onPredicate p) = graph.fillIn p := by
  simp [fillIn, laterPairs_map, List.countP_map, Function.comp_def]

theorem join_renumber (p q : PredicateSymbol) :
    (graph.renumber ρ).join (ρ.onPredicate p, ρ.onPredicate q) =
      (graph.join (p, q)).renumber ρ := by
  simp only [join, renumber, List.map_map, InteractionGraph.mk.injEq]
  refine List.map_congr_left fun entry _ => ?_
  simp only [Function.comp_apply, Renumbering.onPredicate_inj, ρ.embedsPredicates.insert]
  split
  · rfl
  · split <;> rfl

theorem joinAll_renumber (predicates : List PredicateSymbol) :
    (graph.renumber ρ).joinAll (predicates.map ρ.onPredicate) =
      (graph.joinAll predicates).renumber ρ := by
  rw [joinAll, joinAll, laterPairs_map, List.foldl_map]
  exact List.foldl_hom (renumber ρ) fun graph (p, q) => join_renumber ρ graph p q

theorem remove_renumber (p : PredicateSymbol) :
    (graph.renumber ρ).remove (ρ.onPredicate p) = (graph.remove p).renumber ρ := by
  simp [remove, renumber, List.filter_map, Function.comp_def]

theorem eliminate_renumber (p : PredicateSymbol) :
    (graph.renumber ρ).eliminate (ρ.onPredicate p) = (graph.eliminate p).renumber ρ := by
  rw [eliminate, neighbours_renumber, joinAll_renumber, remove_renumber, eliminate]

@[simp]
theorem isBetter_renumber (p q : PredicateSymbol) :
    (graph.renumber ρ).isBetter (ρ.onPredicate p) (ρ.onPredicate q) = graph.isBetter p q := by
  simp [isBetter, ρ.embedsPredicates p q]

theorem best?_renumber : (graph.renumber ρ).best? = graph.best?.map ρ.onPredicate := by
  rw [best?, best?, nodes_renumber, List.foldl_map, ← Option.map_none]
  refine List.foldl_hom (Option.map ρ.onPredicate) fun best p => ?_
  cases best with
  | none => rfl
  | some q =>
      simp only [Option.map_some, isBetter_renumber]
      split <;> rfl

theorem minFillFrom_renumber (count : Nat) :
    (graph.renumber ρ).minFillFrom count =
      ((graph.minFillFrom count).1.map ρ.onPredicate, (graph.minFillFrom count).2) := by
  induction count generalizing graph with
  | zero => rfl
  | succ count ih =>
      rw [minFillFrom, minFillFrom, best?_renumber]
      cases graph.best? with
      | none => rfl
      | some p => simp [eliminate_renumber, ih]

theorem minFill_renumber :
    (graph.renumber ρ).minFill = (graph.minFill.1.map ρ.onPredicate, graph.minFill.2) := by
  rw [minFill, minFill, nodes_renumber, List.length_map, minFillFrom_renumber]

theorem ofNodes_renumber (predicates : List PredicateSymbol) :
    ofNodes (predicates.map ρ.onPredicate) = (ofNodes predicates).renumber ρ := by
  simp [ofNodes, renumber]

end InteractionGraph

/-- The clauses of a store in the order of their numbers. -/
def Store.clauses (store : Store) : List Clause := store.toList.map Prod.snd

theorem InteractionGraph.ofStore_eq (store : Store) :
    ofStore store = store.clauses.foldl (fun graph c => graph.joinAll c.predicates)
      (ofNodes store.predicates) := by
  rw [ofStore, Store.clauses, List.foldl_map]

/-- The predicates of a store of renumbered clauses. -/
theorem Store.predicates_insertAll_renumber (ρ : Renumbering) (clauses : List Clause) :
    (Store.empty.insertAll (clauses.map (Clause.renumber ρ))).predicates =
      (Store.empty.insertAll clauses).predicates.map ρ.onPredicate := by
  have mem_iff {clauses : List Clause} {p : PredicateSymbol} :
      p ∈ (Store.empty.insertAll clauses).predicates ↔ ∃ c ∈ clauses, p ∈ c.predicates := by
    rw [consistent_empty.mem_predicates_insertAll]
    simp [mem_predicates_iff, Store.predicates, Store.empty]
  have increasing : Sorted.IsIncreasing
      ((Store.empty.insertAll clauses).predicates.map ρ.onPredicate) :=
    List.Pairwise.map _ (fun p q before => (ρ.embedsPredicates p q).trans before)
      (isIncreasing_predicates _)
  refine (isIncreasing_predicates _).eq_of_mem_iff increasing fun p => ?_
  simp only [mem_iff, List.mem_map, exists_exists_and_eq_and, Clause.predicates_renumber]
  grind

/-- The order for a store with renumbered clauses is the renumbered order. -/
theorem EliminationOrder.compute_renumber {ρ : Renumbering} {store renumbered : Store}
    (clauses : renumbered.clauses = store.clauses.map (Clause.renumber ρ))
    (predicates : renumbered.predicates = store.predicates.map ρ.onPredicate) :
    (compute renumbered none).order = (compute store none).order.map ρ.onPredicate := by
  have graph : InteractionGraph.ofStore renumbered =
      (InteractionGraph.ofStore store).renumber ρ := by
    rw [InteractionGraph.ofStore_eq, InteractionGraph.ofStore_eq, clauses, predicates,
      InteractionGraph.ofNodes_renumber, List.foldl_map]
    refine List.foldl_hom (InteractionGraph.renumber ρ) fun graph c => ?_
    rw [Clause.predicates_renumber, InteractionGraph.joinAll_renumber]
  simp only [compute, graph, InteractionGraph.minFill_renumber]

end Entailment.FirstOrder
