import Entailment.Proofs.FirstOrder.GreedyChoice
import Mathlib.Data.List.Permutation

/-!
# The width of an order

The width of an order is the largest number of neighbours that a predicate has when its turn
comes.  The width that is reported with an order is the width of the greedy order, which the
answer predicate is taken out of afterwards to be put at the end.  Where it was at the end
already, or where there is none, this is the width of the order that is reported.

Otherwise the answer predicate is a neighbour for longer than the greedy order has it.  That can
add one to the number of neighbours of every later predicate.  The other interactions that are
left are among those that the greedy order leaves, and they can be fewer, since the neighbours of
the answer predicate are not joined.
-/

namespace Entailment.FirstOrder

namespace Interactions

/-- The largest number of neighbours that one of some predicates has when its turn comes. -/
noncomputable def eliminationWidth : List PredicateSymbol → Interactions → Nat
  | [], _ => 0
  | p :: rest, interactions =>
      max (interactions.degree p) (eliminationWidth rest (interactions.eliminate p))

variable (interactions : Interactions)

theorem eliminationWidth_append (first second : List PredicateSymbol) :
    interactions.eliminationWidth (first ++ second) =
      max (interactions.eliminationWidth first)
        ((interactions.eliminateAll first).eliminationWidth second) := by
  induction first generalizing interactions with
  | nil => exact (Nat.zero_max _).symm
  | cons p rest ih =>
      rw [List.cons_append, eliminationWidth, ih, eliminationWidth, max_assoc]
      rfl

/-- Every predicate has finitely many neighbours. -/
def IsFinite : Prop := ∀ p, (interactions.neighborSet p).Finite

theorem IsFinite.eliminate {interactions : Interactions} (finite : interactions.IsFinite)
    (p : PredicateSymbol) : (interactions.eliminate p).IsFinite := by
  intro q
  refine ((finite q).union (finite p)).subset ?_
  rintro r ⟨-, -, -, joined | ⟨-, joined⟩⟩
  · exact .inl joined
  · exact .inr joined

theorem IsFinite.eliminateAll {interactions : Interactions} (finite : interactions.IsFinite)
    (predicates : List PredicateSymbol) : (interactions.eliminateAll predicates).IsFinite := by
  induction predicates generalizing interactions with
  | nil => exact finite
  | cons p rest ih => exact ih (finite.eliminate p)

/-- A predicate that still interacts has not been eliminated and has interacted before. -/
theorem adj_of_adj_eliminateAll {predicates : List PredicateSymbol} {p q : PredicateSymbol}
    (joined : (interactions.eliminateAll predicates).Adj p q) :
    p ∉ predicates ∧ ∃ r, interactions.Adj p r := by
  induction predicates generalizing interactions with
  | nil => exact ⟨List.not_mem_nil, q, joined⟩
  | cons first rest ih =>
      obtain ⟨notRest, r, -, other, -, before⟩ := ih (interactions.eliminate first) joined
      refine ⟨by simp [other, notRest], ?_⟩
      rcases before with before | ⟨before, -⟩
      · exact ⟨r, before⟩
      · exact ⟨first, before.symm⟩

/-- Predicates other than `a` interact only if they do in other interactions. -/
def IsWithin (a : PredicateSymbol) (others : Interactions) : Prop :=
  ∀ p q, p ≠ a → q ≠ a → interactions.Adj p q → others.Adj p q

theorem isWithin_eliminate (a : PredicateSymbol) :
    interactions.IsWithin a (interactions.eliminate a) :=
  fun _ _ pOther qOther joined => ⟨joined.ne, pOther, qOther, .inl joined⟩

section

variable {interactions} {a : PredicateSymbol} {others : Interactions}

/-- Eliminating a predicate other than `a` on both sides keeps this. -/
theorem IsWithin.eliminate (within : interactions.IsWithin a others) {p : PredicateSymbol}
    (other : p ≠ a) : (interactions.eliminate p).IsWithin a (others.eliminate p) := by
  rintro q r qOther rOther ⟨different, notQ, notR, joined⟩
  refine ⟨different, notQ, notR, ?_⟩
  exact joined.imp (within q r qOther rOther)
    (And.imp (within p q other qOther) (within p r other rOther))

/-- Only `a` can be a neighbour more. -/
theorem IsWithin.degree_le (within : interactions.IsWithin a others) (finite : others.IsFinite)
    {p : PredicateSymbol} (other : p ≠ a) : interactions.degree p ≤ others.degree p + 1 := by
  have neighbours : interactions.neighborSet p ⊆ insert a (others.neighborSet p) := by
    intro q joined
    by_cases isA : q = a
    · exact .inl isA
    · exact .inr (within p q other isA joined)
  calc interactions.degree p
      ≤ (insert a (others.neighborSet p)).ncard :=
        Set.ncard_le_ncard neighbours ((finite p).insert a)
    _ ≤ others.degree p + 1 := Set.ncard_insert_le ..

/-- So eliminating predicates other than `a` meets at most one neighbour more. -/
theorem IsWithin.eliminationWidth_le (within : interactions.IsWithin a others)
    (finite : others.IsFinite) {order : List PredicateSymbol} (absent : a ∉ order) :
    interactions.eliminationWidth order ≤ others.eliminationWidth order + 1 := by
  induction order generalizing interactions others with
  | nil => exact Nat.zero_le _
  | cons p rest ih =>
      obtain ⟨other, notRest⟩ := List.ne_and_not_mem_of_not_mem_cons absent
      have first := within.degree_le finite (Ne.symm other)
      have later := ih (within.eliminate (Ne.symm other)) (finite.eliminate p) notRest
      simp only [eliminationWidth]
      omega

/-- Putting a predicate off to the end, where nothing interacts with it, meets at most one
neighbour more. -/
theorem eliminationWidth_move_le {before after : List PredicateSymbol}
    (finite : interactions.IsFinite) (absent : a ∉ after)
    (isolated : (interactions.eliminateAll (before ++ after)).degree a = 0) :
    interactions.eliminationWidth (before ++ after ++ [a]) ≤
      interactions.eliminationWidth (before ++ a :: after) + 1 := by
  have within := (interactions.eliminateAll before).isWithin_eliminate a
  have later := within.eliminationWidth_le ((finite.eliminateAll before).eliminate a) absent
  simp only [eliminationWidth_append, eliminationWidth, isolated]
  omega

end

end Interactions

namespace InteractionGraph

variable {graph : InteractionGraph} {interactions : Interactions}

theorem Represents.isFinite (represents : graph.Represents interactions) :
    interactions.IsFinite := by
  intro p
  refine (graph.neighbours p).toFinset.finite_toSet.subset fun q joined => ?_
  simpa using (represents.mem_neighbours p q).mpr joined

/-- The width along an order, on lists of neighbours. -/
def widthAlong : List PredicateSymbol → InteractionGraph → Nat
  | [], _ => 0
  | p :: rest, graph => max (graph.degree p) (widthAlong rest (graph.eliminate p))

theorem Represents.widthAlong_eq (represents : graph.Represents interactions)
    (order : List PredicateSymbol) :
    graph.widthAlong order = interactions.eliminationWidth order := by
  induction order generalizing graph interactions with
  | nil => rfl
  | cons p rest ih =>
      rw [widthAlong, Interactions.eliminationWidth, represents.degree_eq,
        ih (represents.eliminate p)]

/-- The width that is chosen with an order is its width. -/
theorem width_minFillFrom (count : Nat) :
    (graph.minFillFrom count).2 = graph.widthAlong (graph.minFillFrom count).1 := by
  induction count generalizing graph with
  | zero => rfl
  | succ count ih =>
      rw [minFillFrom]
      cases graph.best? with
      | none => rfl
      | some p => exact congrArg (max (graph.degree p)) ih

end InteractionGraph

namespace EliminationOrder

variable {store : Store}
variable {a : PredicateSymbol} {order : List PredicateSymbol}

/-- The width that is reported is the width of the greedy order. -/
theorem width_eq_eliminationWidth (consistent : store.Consistent)
    (answer : Option PredicateSymbol) : (compute store answer).width =
      store.interactions.eliminationWidth (compute store none).order :=
  (InteractionGraph.width_minFillFrom _).trans
    ((InteractionGraph.represents_ofStore consistent).widthAlong_eq _)

/-- The answer predicate has no neighbour left at the end of an order of all predicates. -/
theorem degree_eliminateAll (consistent : store.Consistent)
    (complete : ∀ p ∈ store.predicates, p ∈ order ++ [a]) :
    (store.interactions.eliminateAll order).degree a = 0 := by
  have none : (store.interactions.eliminateAll order).neighborSet a = ∅ := by
    refine Set.eq_empty_of_forall_notMem fun p joined => ?_
    obtain ⟨absent, q, -, c, stored, mentioned, -⟩ :=
      Interactions.adj_of_adj_eliminateAll _ joined.symm
    rcases List.mem_append.mp (complete p (consistent.mem_predicates stored mentioned)) with
      earlier | isLast
    · exact absent earlier
    · exact joined.ne (List.mem_singleton.mp isLast).symm
  rw [Interactions.degree, none, Set.ncard_empty]

theorem moveToEnd_append {before after : List PredicateSymbol} (absent : a ∉ before) :
    moveToEnd a (before ++ a :: after) = before ++ after ++ [a] := by
  rw [moveToEnd, if_pos (by simp), List.erase_append_right _ absent, List.erase_cons_head]

theorem moveToEnd_of_not_mem (absent : a ∉ order) : moveToEnd a order = order := by
  rw [moveToEnd, if_neg (by simpa using absent)]

/-- A predicate that is at the end already is not moved. -/
theorem moveToEnd_eq_self (nodup : order.Nodup) (last : a ∈ order → order.getLast? = some a) :
    moveToEnd a order = order := by
  by_cases mem : a ∈ order
  · obtain ⟨before, rfl⟩ := List.getLast?_eq_some_iff.mp (last mem)
    have absent : a ∉ before ++ [] := (List.nodup_middle.mp nodup).notMem
    rw [List.append_nil] at absent
    rw [moveToEnd_append absent, List.append_nil]
  · exact moveToEnd_of_not_mem mem

/-- Moving the answer predicate to the end adds at most one to the width. -/
theorem eliminationWidth_compute_le (consistent : store.Consistent)
    (answer : Option PredicateSymbol) :
    store.interactions.eliminationWidth (compute store answer).order ≤
      store.interactions.eliminationWidth (compute store none).order + 1 := by
  cases answer with
  | none => exact Nat.le_succ _
  | some a =>
      have moved : (compute store (some a)).order = moveToEnd a (compute store none).order := rfl
      have nodup := (compute_serves store none).nodup
      have complete := (compute_serves store (some a)).complete
      rw [moved] at complete ⊢
      generalize (compute store none).order = greedy at nodup complete ⊢
      by_cases mem : a ∈ greedy
      · obtain ⟨before, after, rfl⟩ := List.append_of_mem mem
        have absent : a ∉ before ++ after := (List.nodup_middle.mp nodup).notMem
        rw [List.mem_append, not_or] at absent
        rw [moveToEnd_append absent.1] at complete ⊢
        exact Interactions.eliminationWidth_move_le
          (InteractionGraph.represents_ofStore consistent).isFinite absent.2
          (degree_eliminateAll consistent complete)
      · rw [moveToEnd_of_not_mem mem]
        exact Nat.le_succ _

/-- The width that is reported with an order is the width of the greedy order, from which the
answer predicate is moved to the end.  This is the width of the order it is reported with if the
answer predicate is at the end of the greedy order already, or is not a predicate of the store,
or if there is none.  In any case the order has at most one neighbour more to meet. -/
theorem compute_width_of_greedy_order (operations : List Store.Operation)
    (answer : Option PredicateSymbol) :
    let store := Store.empty.performAll operations
    let greedy := (compute store none).order
    let reported := compute store answer
    reported.width = store.interactions.eliminationWidth greedy ∧
      ((∀ a, answer = some a → a ∈ store.predicates → greedy.getLast? = some a) →
        reported.width = store.interactions.eliminationWidth reported.order) ∧
      store.interactions.eliminationWidth reported.order ≤ reported.width + 1 := by
  intro store greedy reported
  have consistent : store.Consistent := (Store.isIndexed_performAll operations).toConsistent
  have isGreedyWidth : reported.width = store.interactions.eliminationWidth greedy :=
    width_eq_eliminationWidth consistent answer
  refine ⟨isGreedyWidth, fun last => ?_, ?_⟩
  · have unmoved : reported.order = greedy := by
      cases answer with
      | none => rfl
      | some a =>
          refine moveToEnd_eq_self (compute_serves store none).nodup fun mem => ?_
          exact last a rfl ((compute_perm store none).mem_iff.mp mem)
    rw [unmoved, isGreedyWidth]
  · rw [isGreedyWidth]
    exact eliminationWidth_compute_le consistent answer

/-- The clauses `p ∨ ¬q` and `q ∨ ¬r`. -/
def chainOperations : List Store.Operation :=
  [.insert (.ofList [.positive ⟨⟨0⟩, []⟩, .negative ⟨⟨1⟩, []⟩]),
   .insert (.ofList [.positive ⟨⟨1⟩, []⟩, .negative ⟨⟨2⟩, []⟩])]

/-- When `p` is moved to the end, `q` has two neighbours when its turn comes, and the width that
is reported is one. -/
theorem width_too_small_when_answer_moves :
    let store := Store.empty.performAll chainOperations
    let reported := compute store (some ⟨0⟩)
    reported.order = [⟨1⟩, ⟨2⟩, ⟨0⟩] ∧ reported.width = 1 ∧
      store.interactions.eliminationWidth reported.order = 2 := by
  -- The kernel does not evaluate sorting, but both clauses are in order.
  have inOrder : chainOperations =
      [.insert ⟨[.positive ⟨⟨0⟩, []⟩, .negative ⟨⟨1⟩, []⟩]⟩,
       .insert ⟨[.positive ⟨⟨1⟩, []⟩, .negative ⟨⟨2⟩, []⟩]⟩] := by
    rw [chainOperations, Clause.ofList, Clause.ofList, Sorted.ofList_pair rfl,
      Sorted.ofList_pair rfl]
  have isReported : compute (Store.empty.performAll chainOperations) (some ⟨0⟩) =
      ⟨[⟨1⟩, ⟨2⟩, ⟨0⟩], [⟨0⟩, ⟨1⟩, ⟨2⟩], some ⟨0⟩, 1⟩ := by
    rw [inOrder]
    decide +kernel
  have width : (InteractionGraph.ofStore (Store.empty.performAll chainOperations)).widthAlong
      [⟨1⟩, ⟨2⟩, ⟨0⟩] = 2 := by
    rw [inOrder]
    decide +kernel
  have represents := InteractionGraph.represents_ofStore
    (Store.isIndexed_performAll chainOperations).toConsistent
  rw [represents.widthAlong_eq] at width
  simp only [isReported]
  exact ⟨trivial, trivial, width⟩

end EliminationOrder

end Entailment.FirstOrder
