import Entailment.FirstOrder.Refutation
import Entailment.Proofs.FirstOrder.EliminationRounds
import Entailment.Proofs.FirstOrder.StoreOperations
import Entailment.Proofs.Runs

/-!
# A search ends within its budget

A search without limits eliminates the predicates of its order one after the other.  `Goes` says
which eliminations it goes through and how it ends, with the rounds of each elimination ending as
they do without any bound.  Every search goes through its order in this way.

Each of its eliminations makes at most as many resolvents as the cap says, and at least one is
always allowed.  An elimination that is neither halted at the cap nor by a refutation has tried
each pair of different clauses once.  So the number of resolvents of a search is bounded by the
cap and the length of the order.
-/

namespace Entailment.FirstOrder

open Monitored (returns_bind exists_run_ok_with)

/-! ## Stores -/

theorem Store.IsIndexed.insertAll {store : Store} (indexed : store.IsIndexed)
    (clauses : List Clause) : (store.insertAll clauses).IsIndexed := by
  induction clauses generalizing store with
  | nil => exact indexed
  | cons c rest ih => exact ih (indexed.insert c)

/-- A bucket that is taken out of an indexed store lists no clause of a side twice. -/
theorem Store.IsIndexed.of_takeBucket {store rest : Store} {p : PredicateSymbol} {bucket : Bucket}
    (indexed : store.IsIndexed) (taken : store.takeBucket p = .ok (bucket, rest)) :
    rest.IsIndexed ∧ ∀ sign, (bucket.side sign).Nodup := by
  obtain ⟨_, _, same, restIndexed, -, sides, -⟩ := indexed.takeBucket p
  cases taken.symm.trans same
  refine ⟨restIndexed, fun sign => ?_⟩
  rw [sides]
  refine (nodup_toList.filter _).map_on fun first firstMem second secondMem same => ?_
  obtain ⟨id, c⟩ := first
  obtain ⟨other, d⟩ := second
  obtain rfl : c = d := same
  rw [List.mem_filter, mem_toList_iff] at firstMem secondMem
  rw [indexed.get?_injective firstMem.1 secondMem.1]

namespace Search

/-! ## The eliminations of a search -/

/-- An elimination that a search has gone through: the pairs of clauses that were tried, in order
and with the resolvents that were taken, and how it ended. -/
structure Step where
  predicate : PredicateSymbol
  trials : List Elimination.Trial
  ended : Outcome Elimination

/-- The resolvents that were taken in an elimination. -/
def Step.resolvents (step : Step) : List Clause := step.trials.flatMap Elimination.Trial.taken

/-- The predicates of an order are eliminated one after the other.  A predicate without clauses is
passed over.  The search goes on after an elimination that came to its end or was cut short at the
cap, and stops with any other one. -/
inductive Goes (setup : Setup) :
    List PredicateSymbol → Search → List Step → Outcome Search → Prop
  | done (search : Search) : Goes setup [] search [] (.going search)
  | passedOver {p : PredicateSymbol} {order : List PredicateSymbol} {search : Search}
      {bucket : Bucket} {rest : Store} {steps : List Step} {outcome : Outcome Search} :
      search.store.takeBucket p = .ok (bucket, rest) → bucket.isEmpty = true →
      Goes setup order ⟨rest, search.findings⟩ steps outcome →
      Goes setup (p :: order) search steps outcome
  | eliminated {p : PredicateSymbol} {order : List PredicateSymbol} {search : Search}
      {bucket : Bucket} {rest : Store} {trials : List Elimination.Trial}
      {ended : Outcome Elimination} {steps : List Step} {outcome : Outcome Search} :
      search.store.takeBucket p = .ok (bucket, rest) → bucket.isEmpty = false →
      Elimination.Saturates setup p trials (.start bucket search.findings) ended →
      ended.Ends (fun _ => True) (fun reason _ => reason = .capped) →
      Goes setup order (after rest ended.state) steps outcome →
      Goes setup (p :: order) search (⟨p, trials, ended⟩ :: steps) outcome
  | stopped {p : PredicateSymbol} {order : List PredicateSymbol} {search : Search}
      {bucket : Bucket} {rest : Store} {trials : List Elimination.Trial} {reason : Halt}
      {state : Elimination} :
      search.store.takeBucket p = .ok (bucket, rest) → bucket.isEmpty = false →
      Elimination.Saturates setup p trials (.start bucket search.findings) (.halted reason state) →
      reason ≠ .capped →
      Goes setup (p :: order) search [⟨p, trials, .halted reason state⟩]
        (.halted reason (after rest state))

variable {setup : Setup} {order : List PredicateSymbol} {search : Search} {steps : List Step}
  {outcome : Outcome Search}

/-- Without limits a search goes through its order. -/
theorem exists_goes (unlimited : setup.config.limits = .unlimited)
    (indexed : search.store.IsIndexed)
    (returned : (forEach (eliminate setup) order search).Returns outcome) :
    ∃ steps, Goes setup order search steps outcome := by
  induction order generalizing search with
  | nil =>
      cases returned
      exact ⟨[], .done search⟩
  | cons p order ih =>
      obtain ⟨first, firstReturned, orderReturned⟩ := (returns_bind ..).mp returned
      rcases eliminates_of_unlimited unlimited indexed.toConsistent firstReturned with
        ⟨splits, isEmpty⟩ | @⟨bucket, rest, ended, splits, notEmpty, ran⟩
      · obtain ⟨steps, goes⟩ := ih (indexed.of_takeBucket splits.taken).1 orderReturned
        exact ⟨steps, .passedOver splits.taken isEmpty goes⟩
      obtain ⟨restIndexed, nodup⟩ := indexed.of_takeBucket splits.taken
      obtain ⟨trials, saturates⟩ := Elimination.exists_saturates_of_run unlimited nodup ran
      have nextIndexed : (after rest ended.state).store.IsIndexed := restIndexed.insertAll _
      cases ended with
      | going state =>
          obtain ⟨steps, goes⟩ := ih nextIndexed orderReturned
          exact ⟨_, .eliminated splits.taken notEmpty saturates trivial goes⟩
      | halted reason state =>
          cases reason with
          | capped =>
              obtain ⟨steps, goes⟩ := ih nextIndexed orderReturned
              exact ⟨_, .eliminated splits.taken notEmpty saturates rfl goes⟩
          | refuted | gaveUp | failed =>
              cases orderReturned
              exact ⟨_, .stopped splits.taken notEmpty saturates nofun⟩

/-! ## The budget -/

/-- An elimination that keeps to the budget of a search: it takes no more resolvents than the cap
allows, or one, and it has tried each pair of different clauses of its two sides once unless it
was halted for a reason. -/
structure Step.IsWithinBudget (setup : Setup) (step : Step) : Prop where
  counted : step.ended.state.resolutions = step.resolvents.length
  within : step.resolvents.length ≤ max 1 setup.config.maxResolutions
  ends : step.ended.Ends (Elimination.TriesEachOnce (step.trials.map Elimination.Trial.pair))
    (Elimination.Stops setup step.predicate step.resolvents)

theorem isWithinBudget_of_saturates {p : PredicateSymbol} {bucket : Bucket} {findings : Findings}
    {trials : List Elimination.Trial} {ended : Outcome Elimination}
    (nodup : ∀ sign, (bucket.side sign).Nodup)
    (saturates : Elimination.Saturates setup p trials (.start bucket findings) ended) :
    Step.IsWithinBudget setup ⟨p, trials, ended⟩ ∧ ended.state.findings.generated =
      findings.generated + (trials.flatMap Elimination.Trial.taken).length := by
  have kept := (Elimination.onBudget_start setup nodup findings).saturates saturates
  have counted := saturates.resolutions_eq.trans (Nat.zero_add _)
  cases ended with
  | going state =>
      have once := Elimination.triesEachOnce_of_saturates nodup saturates
      rw [← counted]
      exact ⟨⟨counted, counted ▸ kept.below.le, once⟩, kept.generated⟩
  | halted reason state =>
      rw [← counted]
      exact ⟨⟨counted, counted ▸ kept.within, kept.stops⟩, kept.generated⟩

/-- All eliminations of a search keep to its budget, and their resolvents are all that it counts. -/
theorem Goes.isWithinBudget (goes : Goes setup order search steps outcome)
    (indexed : search.store.IsIndexed) :
    (∀ step ∈ steps, step.IsWithinBudget setup) ∧ steps.length ≤ order.length ∧
      outcome.state.findings.generated =
        search.findings.generated + (steps.flatMap Step.resolvents).length := by
  induction goes with
  | done search => simp [Outcome.state]
  | passedOver taken _ _ ih =>
      obtain ⟨each, length, generated⟩ := ih (indexed.of_takeBucket taken).1
      exact ⟨each, length.trans (Nat.le_succ _), generated⟩
  | stopped taken _ saturates _ =>
      obtain ⟨within, generated⟩ :=
        isWithinBudget_of_saturates (indexed.of_takeBucket taken).2 saturates
      refine ⟨List.forall_mem_singleton.mpr within, Nat.succ_le_succ (Nat.zero_le _), ?_⟩
      rw [List.flatMap_singleton]
      exact generated
  | eliminated taken _ saturates _ _ ih =>
      obtain ⟨restIndexed, nodup⟩ := indexed.of_takeBucket taken
      obtain ⟨within, generated⟩ := isWithinBudget_of_saturates nodup saturates
      obtain ⟨each, length, later⟩ := ih (restIndexed.insertAll _)
      refine ⟨List.forall_mem_cons.mpr ⟨within, each⟩, Nat.succ_le_succ length, ?_⟩
      rw [later, List.flatMap_cons, List.length_append, ← Nat.add_assoc]
      exact congrArg (· + _) generated

/-- The resolvents of eliminations that keep to the budget. -/
theorem length_resolvents_le {count : Nat} (each : ∀ step ∈ steps, step.IsWithinBudget setup)
    (length : steps.length ≤ count) :
    (steps.flatMap Step.resolvents).length ≤ max 1 setup.config.maxResolutions * count := by
  have bounded : (steps.map fun step => step.resolvents.length).sum ≤
      (steps.map fun step => step.resolvents.length).length • max 1 setup.config.maxResolutions :=
    List.sum_le_card_nsmul _ _ (List.forall_mem_map.mpr fun step mem => (each step mem).within)
  rw [List.length_map, smul_eq_mul, Nat.mul_comm] at bounded
  rw [List.length_flatMap]
  exact bounded.trans (Nat.mul_le_mul_left _ length)

/-- A failure of the search is the failure of one of its eliminations. -/
theorem Goes.exists_failed (goes : Goes setup order search steps outcome) {error : Error}
    {last : Search} (failed : outcome = .halted (.failed error) last) :
    ∃ step ∈ steps, ∃ state, step.ended = .halted (.failed error) state := by
  induction goes with
  | done search => cases failed
  | passedOver _ _ _ ih => exact ih failed
  | stopped _ _ _ _ =>
      cases failed
      exact ⟨_, List.mem_singleton_self _, _, rfl⟩
  | eliminated _ _ _ _ _ ih =>
      obtain ⟨step, mem, found⟩ := ih failed
      exact ⟨step, List.mem_cons_of_mem _ mem, found⟩

/-! ## The whole search -/

/-- A search ends at once if its store has the empty clause and one refutation is enough.
Otherwise it goes through its order. -/
inductive Runs (setup : Setup) (order : EliminationOrder) (search : Search) :
    List Step → Outcome Search → Prop
  | alreadyRefuted : search.store.containsEmpty = true → setup.mode = .single →
      Runs setup order search [] (.halted .refuted search.noted)
  | goes {steps : List Step} {outcome : Outcome Search} :
      ¬(search.store.containsEmpty = true ∧ setup.mode = .single) →
      Goes setup order.order search.noted steps outcome → Runs setup order search steps outcome

theorem noted_unchanged (search : Search) :
    search.noted.store = search.store ∧
      search.noted.findings.generated = search.findings.generated := by
  unfold noted
  split <;> exact ⟨rfl, rfl⟩

/-- Without limits a search runs. -/
theorem exists_runs {order : EliminationOrder} (unlimited : setup.config.limits = .unlimited)
    (indexed : search.store.IsIndexed) (returned : (search.run setup order).Returns outcome) :
    ∃ steps, Runs setup order search steps outcome := by
  have notedIndexed : search.noted.store.IsIndexed := by rwa [search.noted_unchanged.1]
  have ended := of_run returned
  split at ended
  · rename_i isRefuted
    exact ⟨[], ended ▸ .alreadyRefuted isRefuted.1 isRefuted.2⟩
  · obtain ⟨steps, goes⟩ := exists_goes unlimited notedIndexed ended
    exact ⟨steps, .goes ‹_› goes⟩

theorem Runs.isWithinBudget {order : EliminationOrder}
    (runs : Runs setup order search steps outcome) (indexed : search.store.IsIndexed) :
    (∀ step ∈ steps, step.IsWithinBudget setup) ∧ steps.length ≤ order.order.length ∧
      outcome.state.findings.generated =
        search.findings.generated + (steps.flatMap Step.resolvents).length := by
  obtain ⟨sameStore, sameCount⟩ := search.noted_unchanged
  cases runs with
  | alreadyRefuted _ _ =>
      exact ⟨List.forall_mem_nil _, Nat.zero_le _, sameCount.trans (Nat.add_zero _).symm⟩
  | goes _ goes =>
      rw [← sameStore] at indexed
      rw [← sameCount]
      exact goes.isWithinBudget indexed

theorem Runs.exists_failed {order : EliminationOrder}
    (runs : Runs setup order search steps outcome) {error : Error} {last : Search}
    (failed : outcome = .halted (.failed error) last) :
    ∃ step ∈ steps, ∃ state, step.ended = .halted (.failed error) state := by
  cases runs with
  | alreadyRefuted _ _ => cases failed
  | goes _ goes => exact goes.exists_failed failed

/-- The result of a search counts all its resolvents, and is an error only if the search failed. -/
theorem result_spec (outcome : Outcome Search) :
    (∀ refutation, result outcome = .ok refutation →
      refutation.generated = outcome.state.findings.generated) ∧
    ∀ error, result outcome = .error error → ∃ last, outcome = .halted (.failed error) last := by
  cases outcome with
  | going search =>
      refine ⟨?_, nofun⟩
      rintro refutation ⟨⟩
      rfl
  | halted reason search =>
      cases reason with
      | failed error =>
          refine ⟨nofun, ?_⟩
          rintro error ⟨⟩
          exact ⟨search, rfl⟩
      | refuted | capped | gaveUp =>
          refine ⟨?_, nofun⟩
          rintro refutation ⟨⟩
          rfl

end Search

/-- A search without limits ends, for every store that can be built, every order, mode and query
and every cap.  It has run through a list of eliminations, each of which keeps to the budget: it
takes no more resolvents than the cap allows, or one, and it has tried each pair of different
clauses of its two sides once, unless it was halted where one refutation is enough, at the cap, or
by an answer that does not fit the query.  The search reports the number of all these resolvents,
which is bounded by the cap and the length of the order.  It ends with an error only if one of the
eliminations failed. -/
theorem Store.refute_ends_within_budget {setup : Setup}
    (unlimited : setup.config.limits = .unlimited) (operations : List Store.Operation)
    (order : EliminationOrder) (query : Option AnswerQuery) (signature : Signature) :
    let store := Store.empty.performAll operations
    (store.refute setup order query signature).Always fun result =>
      ∃ steps outcome,
        Search.Runs setup order (.start setup store query signature) steps outcome ∧
        result = (Search.result outcome, outcome.state.findings.signature) ∧
        (∀ step ∈ steps, step.IsWithinBudget setup) ∧
        (∀ error, result.1 = .error error →
          ∃ step ∈ steps, ∃ state, step.ended = .halted (.failed error) state) ∧
        ∀ refutation, result.1 = .ok refutation →
          refutation.generated = (steps.flatMap Search.Step.resolvents).length ∧
          refutation.generated ≤ max 1 setup.config.maxResolutions * order.order.length := by
  intro store
  refine (Monitored.always_iff _).mpr fun result returned => ?_
  obtain ⟨outcome, outcomeReturned, ended⟩ := (returns_bind ..).mp returned
  cases ended
  have indexed : (Search.start setup store query signature).store.IsIndexed :=
    isIndexed_performAll operations
  obtain ⟨steps, runs⟩ := Search.exists_runs unlimited indexed outcomeReturned
  obtain ⟨each, length, generated⟩ := runs.isWithinBudget indexed
  obtain ⟨counts, fails⟩ := Search.result_spec outcome
  refine ⟨steps, outcome, runs, rfl, each, fun error failed => ?_, fun refutation succeeded => ?_⟩
  · obtain ⟨last, isFailed⟩ := fails error failed
    exact runs.exists_failed isFailed
  · have total : refutation.generated = (steps.flatMap Search.Step.resolvents).length :=
      (counts refutation succeeded).trans (generated.trans (Nat.zero_add _))
    exact ⟨total, total ▸ Search.length_resolvents_le each length⟩

/-- A signature with `p`, `a` and `f`. -/
def successorSignature : Signature :=
  (((Signature.empty.internPredicate "p" 1).2.internFunction "a" 0).2.internFunction
    "f" 1).2.reserveCanonical 1

/-- The clauses `p(a)` and `¬p(x) ∨ p(f(x))`, which have resolvents without end. -/
def successorOperations : List Store.Operation :=
  [.insert (.ofList [.positive ⟨⟨0⟩, [.app ⟨0⟩ []]⟩]),
   .insert (.ofList [.negative ⟨⟨0⟩, [.var ⟨0⟩]⟩, .positive ⟨⟨0⟩, [.app ⟨1⟩ [.var ⟨0⟩]]⟩])]

/-- Three resolvents are allowed for each predicate. -/
def successorSetup : Setup := ⟨{ Config.default with maxResolutions := 3 }, .all, .zero⟩

/-- The search for a refutation of the two clauses is cut short at three resolvents. -/
theorem Store.refute_ends_within_budget_successor :
    successorSetup.config.limits = .unlimited ∧
      ∃ refutation extended, ∃ steps : List Search.Step,
        ((Store.empty.performAll successorOperations).refute successorSetup (.fixed [⟨0⟩]) none
          successorSignature).Returns (.ok refutation, extended) ∧
        refutation.generated = 3 ∧ refutation.truncated = true ∧
        (∀ step ∈ steps, step.IsWithinBudget successorSetup) ∧
        refutation.generated = (steps.flatMap Search.Step.resolvents).length ∧
        refutation.generated ≤ max 1 3 * 1 := by
  have run : (((Store.empty.performAll successorOperations).refute successorSetup
      (.fixed [⟨0⟩]) none successorSignature).run .zero none).1.1.toOption.map
        (fun refutation => (refutation.generated, refutation.truncated)) = some (3, true) := by
    cbv
  obtain ⟨refutation, extended, returned, seen⟩ := exists_run_ok_with _ run
  obtain ⟨generated, truncated⟩ := Prod.mk.inj seen
  obtain ⟨-, always⟩ := @refute_ends_within_budget successorSetup rfl successorOperations
    (.fixed [⟨0⟩]) none successorSignature
  obtain ⟨steps, outcome, -, -, each, -, counts⟩ := always _ returned
  obtain ⟨total, bounded⟩ := counts refutation rfl
  exact ⟨rfl, refutation, extended, steps, returned, generated, truncated, each, total, bounded⟩

end Entailment.FirstOrder
