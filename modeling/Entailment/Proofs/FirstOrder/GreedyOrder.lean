import Entailment.FirstOrder.EliminationOrder
import Entailment.Order.SortedLemmas

/-!
# The greedy order has every predicate

Eliminating a predicate takes it out of the graph of interactions and leaves the
other predicates, so the greedy order lists every predicate of the store once.
The answer predicate is moved to the end.  An order that a planner has kept was
made for the same predicates and the same answer predicate, so it serves as well
as a new one.
-/

namespace Entailment.FirstOrder

namespace InteractionGraph

variable (graph : InteractionGraph)

@[simp]
theorem nodes_join (pair : PredicateSymbol × PredicateSymbol) :
    (graph.join pair).nodes = graph.nodes := by
  simp only [nodes, join, List.map_map]
  refine List.map_congr_left fun entry _ => ?_
  simp only [Function.comp_apply]
  split
  · rfl
  · split <;> rfl

@[simp]
theorem nodes_joinAll (predicates : List PredicateSymbol) :
    (graph.joinAll predicates).nodes = graph.nodes := by
  unfold joinAll
  generalize laterPairs predicates = pairs
  induction pairs generalizing graph with
  | nil => rfl
  | cons pair rest ih => rw [List.foldl_cons, ih, nodes_join]

theorem nodes_remove (p : PredicateSymbol) :
    (graph.remove p).nodes = graph.nodes.filter fun q => decide (q ≠ p) := by
  simp only [nodes, remove, List.map_map, List.filter_map]
  rfl

theorem nodes_eliminate (p : PredicateSymbol) :
    (graph.eliminate p).nodes = graph.nodes.filter fun q => decide (q ≠ p) := by
  rw [eliminate, nodes_remove, nodes_joinAll]

/-- The predicates of the graph of a store are those of the store. -/
theorem nodes_ofStore (store : Store) : (ofStore store).nodes = store.predicates := by
  have start : (ofNodes store.predicates).nodes = store.predicates := by
    simp only [nodes, ofNodes, List.map_map]
    exact List.map_id _
  unfold ofStore
  generalize store.toList = entries
  generalize ofNodes store.predicates = graph at start ⊢
  induction entries generalizing graph with
  | nil => exact start
  | cons entry rest ih => exact ih _ (by rw [nodes_joinAll, start])

/-- A fold that keeps the element it has or takes the next one ends with one of
them. -/
theorem exists_of_foldl {α : Type} {choose : Option α → α → Option α}
    (chooses : ∀ kept next, choose (some kept) next = some next ∨
      choose (some kept) next = some kept) (first : α) (rest : List α) :
    ∃ chosen ∈ first :: rest, rest.foldl choose (some first) = some chosen := by
  induction rest generalizing first with
  | nil => exact ⟨first, List.mem_singleton_self _, rfl⟩
  | cons next rest ih =>
      rw [List.foldl_cons]
      rcases chooses first next with isNext | isFirst
      · rw [isNext]
        obtain ⟨chosen, mem, done⟩ := ih next
        exact ⟨chosen, List.mem_cons_of_mem _ mem, done⟩
      · rw [isFirst]
        obtain ⟨chosen, mem, done⟩ := ih first
        refine ⟨chosen, ?_, done⟩
        rcases List.mem_cons.mp mem with rfl | mem
        · exact List.mem_cons_self ..
        · exact List.mem_cons_of_mem _ (List.mem_cons_of_mem _ mem)

/-- A graph with predicates has a best one, and it is one of them. -/
theorem best?_spec : (graph.nodes = [] → graph.best? = none) ∧
    (graph.nodes ≠ [] → ∃ p ∈ graph.nodes, graph.best? = some p) := by
  unfold best?
  cases graph.nodes with
  | nil => exact ⟨fun _ => rfl, fun nonempty => absurd rfl nonempty⟩
  | cons first rest =>
      refine ⟨nofun, fun _ => exists_of_foldl (fun kept next => ?_) first rest⟩
      simp only
      split
      · exact .inl rfl
      · exact .inr rfl

/-- The greedy order of enough steps lists every predicate of the graph once. -/
theorem minFillFrom_spec (count : Nat) (enough : graph.nodes.length ≤ count) :
    (∀ p, p ∈ (graph.minFillFrom count).1 ↔ p ∈ graph.nodes) ∧
      (graph.minFillFrom count).1.Nodup := by
  induction count generalizing graph with
  | zero =>
      have noNodes : graph.nodes = [] := List.length_eq_zero_iff.mp (Nat.le_zero.mp enough)
      rw [noNodes]
      exact ⟨fun p => Iff.rfl, List.nodup_nil⟩
  | succ count ih =>
      by_cases noNodes : graph.nodes = []
      · rw [minFillFrom, graph.best?_spec.1 noNodes, noNodes]
        exact ⟨fun p => Iff.rfl, List.nodup_nil⟩
      · obtain ⟨p, mem, isBest⟩ := graph.best?_spec.2 noNodes
        have fewer : (graph.eliminate p).nodes.length ≤ count := by
          rw [nodes_eliminate]
          have less : (graph.nodes.filter fun q => decide (q ≠ p)).length < graph.nodes.length :=
            List.length_filter_lt_length_iff_exists.mpr ⟨p, mem, by simp⟩
          omega
        obtain ⟨others, nodup⟩ := ih (graph.eliminate p) fewer
        rw [minFillFrom, isBest]
        constructor
        · intro q
          rw [List.mem_cons, others, nodes_eliminate, List.mem_filter, decide_eq_true_eq]
          constructor
          · rintro (rfl | ⟨qMem, -⟩)
            · exact mem
            · exact qMem
          · intro qMem
            by_cases isIt : q = p
            · exact .inl isIt
            · exact .inr ⟨qMem, isIt⟩
        · refine List.nodup_cons.mpr ⟨fun again => ?_, nodup⟩
          rw [others, nodes_eliminate, List.mem_filter] at again
          simp at again

end InteractionGraph

/-- An order that eliminates every predicate of a store, the answer predicate last
and only then. -/
structure EliminationOrder.Serves (keys : List PredicateSymbol) (answer : Option PredicateSymbol)
    (order : EliminationOrder) : Prop where
  nodup : order.order.Nodup
  complete : ∀ p ∈ keys, p ∈ order.order
  answerLast : ∀ p, answer = some p → p ∈ keys → ∃ before, order.order = before ++ [p] ∧ p ∉ before

/-- The order that is computed for a store serves it. -/
theorem EliminationOrder.compute_serves (store : Store) (answer : Option PredicateSymbol) :
    (compute store answer).Serves store.predicates answer := by
  obtain ⟨members, nodup⟩ :=
    (InteractionGraph.ofStore store).minFillFrom_spec _ (Nat.le_refl _)
  simp only [InteractionGraph.nodes_ofStore] at members nodup
  have isOrder : (InteractionGraph.ofStore store).minFill.1 =
      ((InteractionGraph.ofStore store).minFillFrom store.predicates.length).1 := by
    rw [InteractionGraph.minFill, InteractionGraph.nodes_ofStore]
  rw [← isOrder] at members nodup
  cases answer with
  | none => exact ⟨nodup, fun p mem => (members p).mpr mem, nofun⟩
  | some answer =>
      have moved : (compute store (some answer)).order =
          moveToEnd answer (InteractionGraph.ofStore store).minFill.1 := rfl
      constructor
      · rw [moved, moveToEnd]
        split
        · refine List.nodup_append.mpr ⟨nodup.erase answer, by simp, ?_⟩
          rintro p mem q isLast rfl
          rw [List.mem_singleton.mp isLast] at mem
          exact nodup.not_mem_erase mem
        · exact nodup
      · intro p mem
        have inOrder := (members p).mpr mem
        rw [moved, moveToEnd]
        split
        · by_cases isIt : p = answer
          · exact List.mem_append_right _ (by simp [isIt])
          · exact List.mem_append_left _ ((List.mem_erase_of_ne isIt).mpr inOrder)
        · exact inOrder
      · rintro p isAnswer mem
        cases isAnswer
        have inOrder := (members answer).mpr mem
        refine ⟨(InteractionGraph.ofStore store).minFill.1.erase answer, ?_, nodup.not_mem_erase⟩
        rw [moved, moveToEnd, if_pos (List.contains_iff_mem.mpr inOrder)]

/-- The order that a planner keeps serves the predicates it was made for. -/
def Planner.IsFaithful (planner : Planner) : Prop :=
  ∀ order ∈ planner.cached, order.Serves order.keys order.answer

theorem Planner.isFaithful_start : Planner.start.IsFaithful := nofun

/-- The order for a store serves it, whether it was kept or is new. -/
theorem Planner.orderFor_spec {planner : Planner} (faithful : planner.IsFaithful) (store : Store)
    (answer : Option PredicateSymbol) :
    (planner.orderFor store answer).1.Serves store.predicates answer ∧
      (planner.orderFor store answer).2.2.IsFaithful := by
  unfold orderFor
  cases reusable : planner.reusable? store answer with
  | some order =>
      obtain ⟨isCached, same⟩ := Option.filter_eq_some_iff.mp reusable
      obtain ⟨sameAnswer, sameKeys⟩ := decide_eq_true_eq.mp same
      have serves := faithful order isCached
      rw [sameAnswer, sameKeys] at serves
      exact ⟨serves, faithful⟩
  | none =>
      have serves := EliminationOrder.compute_serves store answer
      refine ⟨serves, ?_⟩
      rintro order ⟨⟩
      exact serves

end Entailment.FirstOrder
