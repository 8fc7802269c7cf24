import Entailment.Proofs.FirstOrder.Interactions
import Mathlib.Data.Prod.Lex

/-!
# What the planner hands out

A greedy order puts next the predicate of the smallest cost, in the interactions that the
elimination of the predicates before it leaves.  The cost of a predicate compares first the
interactions that its elimination adds, then its neighbours, then its number, so that there is
never a tie.

A planner hands out one order after the other.  An order that it has kept was computed for a
store with the same predicates, possibly other clauses, and for the same answer predicate, so
that every order lists all predicates of the store it is handed out for.
-/

namespace Entailment.FirstOrder

namespace Interactions

variable (interactions : Interactions)

/-- The cost of eliminating a predicate next. -/
noncomputable def cost (p : PredicateSymbol) : ℕ ×ₗ ℕ ×ₗ ℕ :=
  toLex (interactions.fillIn p, toLex (interactions.degree p, p.index))

/-- An order in which every predicate costs less than the later ones when its turn comes. -/
def IsGreedy (order : List PredicateSymbol) : Prop :=
  ∀ before p after, order = before ++ p :: after → ∀ q ∈ after,
    (interactions.eliminateAll before).cost p < (interactions.eliminateAll before).cost q

theorem cost_lt_cost {p q : PredicateSymbol} : interactions.cost p < interactions.cost q ↔
    interactions.fillIn p < interactions.fillIn q ∨ interactions.fillIn p = interactions.fillIn q ∧
      (interactions.degree p < interactions.degree q ∨
        interactions.degree p = interactions.degree q ∧ p.index < q.index) := by
  simp only [cost, Prod.Lex.toLex_lt_toLex]

/-- Different predicates have different costs. -/
theorem cost_injective : Function.Injective interactions.cost := by
  rintro ⟨i⟩ ⟨j⟩ same
  simp only [cost, toLex_inj, Prod.mk.injEq] at same
  rw [same.2.2]

theorem isGreedy_nil : interactions.IsGreedy [] := by
  intro before p after split
  simp at split

/-- A greedy order begins with a cheapest predicate and goes on as a greedy order of what its
elimination leaves. -/
theorem isGreedy_cons {p : PredicateSymbol} {rest : List PredicateSymbol}
    (least : ∀ q ∈ rest, interactions.cost p < interactions.cost q)
    (others : (interactions.eliminate p).IsGreedy rest) : interactions.IsGreedy (p :: rest) := by
  intro before q after split
  cases before with
  | nil =>
      cases split
      exact least
  | cons first before =>
      cases split
      exact others before q after rfl

end Interactions

namespace InteractionGraph

variable {graph : InteractionGraph} {interactions : Interactions}

theorem isBetter_iff (represents : graph.Represents interactions) (p q : PredicateSymbol) :
    graph.isBetter p q = true ↔ interactions.cost p < interactions.cost q := by
  have byNumber : compare p q = compare p.index q.index := rfl
  rw [isBetter, beq_iff_eq, Interactions.cost_lt_cost, represents.fillIn_eq, represents.fillIn_eq,
    represents.degree_eq, represents.degree_eq, byNumber]
  simp only [Ordering.then_eq_lt, Nat.compare_eq_lt, Nat.compare_eq_eq]

/-- A fold that takes the next element where it is cheaper ends with a cheapest one. -/
theorem least_of_foldl {α β : Type} [LinearOrder β] {cost : α → β}
    {choose : Option α → α → Option α}
    (takes : ∀ kept next, choose (some kept) next =
      some (if cost next < cost kept then next else kept))
    {first chosen : α} {rest : List α} (done : rest.foldl choose (some first) = some chosen) :
    ∀ a ∈ first :: rest, cost chosen ≤ cost a := by
  induction rest generalizing first with
  | nil =>
      cases done
      simp
  | cons next rest ih =>
      rw [List.foldl_cons, takes] at done
      have least := ih done
      rw [List.forall_mem_cons] at least ⊢
      have cheaper : cost chosen ≤ cost first ∧ cost chosen ≤ cost next := by
        split at least
        · exact ⟨least.1.trans (le_of_lt ‹_›), least.1⟩
        · exact ⟨least.1, least.1.trans (not_lt.mp ‹_›)⟩
      exact ⟨cheaper.1, List.forall_mem_cons.mpr ⟨cheaper.2, least.2⟩⟩

/-- The best predicate of a graph is a cheapest one. -/
theorem cost_le_of_best? (represents : graph.Represents interactions) {p : PredicateSymbol}
    (isBest : graph.best? = some p) :
    ∀ q ∈ graph.nodes, interactions.cost p ≤ interactions.cost q := by
  unfold best? at isBest
  generalize graph.nodes = nodes at isBest ⊢
  cases nodes with
  | nil => nofun
  | cons first rest =>
      refine least_of_foldl (fun kept next => ?_) isBest
      simp only [isBetter_iff represents]
      split <;> rfl

theorem mem_nodes_of_best? {p : PredicateSymbol} (isBest : graph.best? = some p) :
    p ∈ graph.nodes := by
  have nonempty : graph.nodes ≠ [] := by
    intro noNodes
    rw [graph.best?_spec.1 noNodes] at isBest
    cases isBest
  obtain ⟨q, mem, same⟩ := graph.best?_spec.2 nonempty
  rw [isBest] at same
  cases same
  exact mem

theorem mem_nodes_of_mem_minFillFrom {count : Nat} {q : PredicateSymbol}
    (mem : q ∈ (graph.minFillFrom count).1) : q ∈ graph.nodes := by
  induction count generalizing graph with
  | zero => cases mem
  | succ count ih =>
      cases best : graph.best? with
      | none =>
          rw [minFillFrom, best] at mem
          cases mem
      | some p =>
          rw [minFillFrom, best] at mem
          rcases List.mem_cons.mp mem with rfl | later
          · exact mem_nodes_of_best? best
          · have left := ih later
            rw [nodes_eliminate] at left
            exact List.mem_of_mem_filter left

/-- An order that is chosen greedily is greedy. -/
theorem isGreedy_minFillFrom (represents : graph.Represents interactions) (count : Nat) :
    interactions.IsGreedy (graph.minFillFrom count).1 := by
  induction count generalizing graph interactions with
  | zero => exact interactions.isGreedy_nil
  | succ count ih =>
      cases best : graph.best? with
      | none =>
          rw [minFillFrom, best]
          exact interactions.isGreedy_nil
      | some p =>
          rw [minFillFrom, best]
          refine interactions.isGreedy_cons (fun q later => ?_) (ih (represents.eliminate p))
          have left := mem_nodes_of_mem_minFillFrom later
          rw [nodes_eliminate, List.mem_filter, decide_eq_true_eq] at left
          have different : interactions.cost p ≠ interactions.cost q :=
            fun same => left.2 (interactions.cost_injective same).symm
          exact lt_of_le_of_ne (cost_le_of_best? represents best q left.1) different

end InteractionGraph

namespace EliminationOrder

variable {store : Store}

theorem moveToEnd_perm (p : PredicateSymbol) (order : List PredicateSymbol) :
    (moveToEnd p order).Perm order := by
  unfold moveToEnd
  split
  · have mem : p ∈ order := List.contains_iff_mem.mp ‹_›
    exact (List.perm_append_singleton p _).trans (List.perm_cons_erase mem).symm
  · exact List.Perm.refl _

/-- The order for a store lists its predicates. -/
theorem compute_perm (store : Store) (answer : Option PredicateSymbol) :
    (compute store answer).order.Perm store.predicates := by
  obtain ⟨members, nodup⟩ := (InteractionGraph.ofStore store).minFillFrom_spec _ (Nat.le_refl _)
  rw [InteractionGraph.nodes_ofStore] at members nodup
  have lists : (InteractionGraph.ofStore store).minFill.1.Perm store.predicates := by
    rw [InteractionGraph.minFill, InteractionGraph.nodes_ofStore]
    exact (List.perm_ext_iff_of_nodup nodup (Store.isIncreasing_predicates store).nodup).mpr members
  cases answer with
  | none => exact lists
  | some p => exact (moveToEnd_perm p _).trans lists

/-- The answer predicate is at the end of the order if the store has it. -/
theorem getLast?_compute {p : PredicateSymbol} (mem : p ∈ store.predicates) :
    (compute store (some p)).order.getLast? = some p := by
  obtain ⟨before, isOrder, -⟩ := (compute_serves store (some p)).answerLast p rfl mem
  rw [isOrder, List.getLast?_concat]

/-- The order for a store serves every store with the same predicates: it lists them, each once,
with the answer predicate at the end. -/
theorem compute_complete {other : Store} (same : store.predicates = other.predicates)
    (answer : Option PredicateSymbol) :
    (compute store answer).order.Perm other.predicates ∧ (compute store answer).order.Nodup ∧
      ∀ p, answer = some p → p ∈ other.predicates →
        (compute store answer).order.getLast? = some p := by
  rw [← same]
  refine ⟨compute_perm .., (compute_serves ..).nodup, ?_⟩
  rintro p rfl mem
  exact getLast?_compute mem

/-- Without an answer predicate the order for a store is greedy. -/
theorem isGreedy_compute (consistent : store.Consistent) :
    store.interactions.IsGreedy (compute store none).order :=
  InteractionGraph.isGreedy_minFillFrom (InteractionGraph.represents_ofStore consistent) _

end EliminationOrder

namespace Planner

/-- A store and an answer predicate that a planner is asked for. -/
abbrev Request := Store × Option PredicateSymbol

variable {requests : List Request} {planner : Planner}

/-- The planner after it has been asked for some stores, one after the other. -/
def afterAll (requests : List Request) (planner : Planner) : Planner :=
  requests.foldl (fun planner request => (planner.orderFor request.1 request.2).2.2) planner

/-- The order that a planner keeps was computed for one of some requests. -/
def IsEarned (requests : List Request) (planner : Planner) : Prop :=
  ∀ order ∈ planner.cached, ∃ request ∈ requests,
    order = EliminationOrder.compute request.1 request.2

/-- What is handed out for a request: the order that is computed for it, or the one that was
computed for an earlier request with the same predicates and the same answer predicate. -/
theorem orderFor_cases (earned : planner.IsEarned requests) (store : Store)
    (answer : Option PredicateSymbol) :
    (∃ next, planner.orderFor store answer =
        (EliminationOrder.compute store answer, true, next) ∧
      next.IsEarned [(store, answer)]) ∨
    ∃ earlier, (earlier, answer) ∈ requests ∧ earlier.predicates = store.predicates ∧
      planner.orderFor store answer =
        (EliminationOrder.compute earlier answer, false, planner) := by
  unfold orderFor
  cases reusable : planner.reusable? store answer with
  | none =>
      refine .inl ⟨_, rfl, ?_⟩
      rintro order ⟨⟩
      exact ⟨(store, answer), List.mem_singleton_self _, rfl⟩
  | some order =>
      obtain ⟨isCached, same⟩ := Option.filter_eq_some_iff.mp reusable
      obtain ⟨sameAnswer, sameKeys⟩ := decide_eq_true_eq.mp same
      obtain ⟨⟨earlier, earlierAnswer⟩, mem, rfl⟩ := earned order isCached
      obtain rfl : earlierAnswer = answer := sameAnswer
      exact .inr ⟨earlier, mem, sameKeys, rfl⟩

theorem IsEarned.mono {more : List Request} (earned : planner.IsEarned requests)
    (subset : requests ⊆ more) : planner.IsEarned more :=
  fun order kept => (earned order kept).imp fun _ found => ⟨subset found.1, found.2⟩

/-- One request keeps what was earned. -/
theorem IsEarned.orderFor (earned : planner.IsEarned requests) (request : Request) :
    (planner.orderFor request.1 request.2).2.2.IsEarned (requests ++ [request]) := by
  rcases orderFor_cases earned request.1 request.2 with
    ⟨next, isComputed, nextEarned⟩ | ⟨earlier, -, -, isKept⟩
  · rw [isComputed]
    exact nextEarned.mono (List.subset_append_right ..)
  · rw [isKept]
    exact earned.mono (List.subset_append_left ..)

/-- So do all of them. -/
theorem IsEarned.afterAll (earned : planner.IsEarned requests) (more : List Request) :
    (planner.afterAll more).IsEarned (requests ++ more) := by
  induction more generalizing requests planner with
  | nil => rwa [List.append_nil]
  | cons request rest ih =>
      have next := ih (earned.orderFor request)
      rwa [List.append_assoc] at next

/-- Whatever a planner has been asked for before, the order it hands out lists the predicates of
the store it is asked for, each once, with the answer predicate at the end if the store has it.
An order that it does not compute is the one of an earlier request with the same predicates and
the same answer predicate.  An order that it computes without an answer predicate is greedy: in
the interactions that are left when its turn comes, each predicate has fewer missing interactions
between its neighbours than every later one, or as many and fewer neighbours, or as many of both
and a smaller number. -/
theorem orderFor_complete_and_greedy
    (earlier : List (List Store.Operation × Option PredicateSymbol))
    (operations : List Store.Operation) (answer : Option PredicateSymbol) :
    let planner := Planner.start.afterAll
      (earlier.map fun request => (Store.empty.performAll request.1, request.2))
    let store := Store.empty.performAll operations
    let handed := planner.orderFor store answer
    handed.1.order.Perm store.predicates ∧ handed.1.order.Nodup ∧
      (∀ p, answer = some p → p ∈ store.predicates → handed.1.order.getLast? = some p) ∧
      (handed.2.1 = false → ∃ request ∈ earlier, request.2 = answer ∧
        (Store.empty.performAll request.1).predicates = store.predicates ∧
        handed.1 = EliminationOrder.compute (Store.empty.performAll request.1) answer) ∧
      (handed.2.1 = true → answer = none → store.interactions.IsGreedy handed.1.order) := by
  intro planner store handed
  have nothing : Planner.start.IsEarned [] := nofun
  have earned := nothing.afterAll
    (earlier.map fun request => (Store.empty.performAll request.1, request.2))
  rcases orderFor_cases earned store answer with
    ⟨next, isComputed, -⟩ | ⟨other, asked, same, isKept⟩
  · have isHanded : handed = _ := isComputed
    rw [isHanded]
    obtain ⟨perm, nodup, last⟩ :=
      EliminationOrder.compute_complete (Eq.refl store.predicates) answer
    refine ⟨perm, nodup, last, nofun, ?_⟩
    rintro - rfl
    exact EliminationOrder.isGreedy_compute (Store.isIndexed_performAll operations).toConsistent
  · have isHanded : handed = _ := isKept
    rw [isHanded]
    obtain ⟨perm, nodup, last⟩ := EliminationOrder.compute_complete same answer
    refine ⟨perm, nodup, last, fun _ => ?_, nofun⟩
    obtain ⟨request, mem, isRequest⟩ := List.mem_map.mp asked
    cases isRequest
    exact ⟨request, mem, rfl, same, rfl⟩

end Planner

end Entailment.FirstOrder
