import Entailment.Proofs.FirstOrder.GroundElimination
import Entailment.Proofs.FirstOrder.RenumberedSearch
import Entailment.Proofs.FirstOrder.SearchBudget
import Entailment.Proofs.Runs

/-!
# One refutation and all of them

A search without limits that looks for no answers can stop at the first refutation or go on to find
all.  Up to the first refutation the two are the same search.  There the one is halted, and the
other one has noted the refutation and goes on: it makes more resolvents, is cut short here and
there, and never takes the refutation back.  So both find a refutation or neither does, and a
search that finds none does not depend on the mode.
-/

namespace Entailment.FirstOrder

open Monitored (Pairs returns_bind returns_tell returns_pure exists_run_ok_with)

/-! ## Two loops -/

/-- What a search that stops at the first refutation has come to, and what the search for all of
them has.  They stand at the same place, where nothing is refuted yet, or the first one is halted by
a refutation and the second one is past it. -/
inductive Outcome.Leads {σ : Type} (isOpen : σ → Prop) (isPast : σ → σ → Prop) :
    Outcome σ → Outcome σ → Prop
  | going {state : σ} : isOpen state → Leads isOpen isPast (.going state) (.going state)
  | capped {state : σ} : isOpen state →
      Leads isOpen isPast (.halted .capped state) (.halted .capped state)
  | refuted {state : σ} {other : Outcome σ} : other.Keeps (isPast state) (· = .capped) →
      Leads isOpen isPast (.halted .refuted state) other

/-- If the second of two loops does not come back once it is past a refutation, the loops are
related as each of their items is. -/
theorem forEach_leads {α σ : Type} {isOpen : σ → Prop} {isPast : σ → σ → Prop}
    {body otherBody : α → σ → Monitored Event (Outcome σ)} {items : List α}
    (step : ∀ item ∈ items, ∀ state, isOpen state →
      Pairs (Outcome.Leads isOpen isPast) (body item state) (otherBody item state))
    (later : ∀ item ∈ items, ∀ first state outcome, isPast first state →
      (otherBody item state).Returns outcome → outcome.Keeps (isPast first) (· = .capped))
    {state : σ} (start : isOpen state) :
    Pairs (Outcome.Leads isOpen isPast) (forEach body items state)
      (forEach otherBody items state) := by
  induction items generalizing state with
  | nil => exact Pairs.pure (.going start)
  | cons item rest ih =>
      have restLater := fun other mem => later other (List.mem_cons_of_mem item mem)
      refine Pairs.bind (step item (List.mem_cons_self ..) state start) ?_
      rintro _ other (isOpen | isOpen | @⟨first, _, past⟩)
      · exact ih (fun other mem => step other (List.mem_cons_of_mem _ mem)) restLater isOpen
      · exact Pairs.pure (.capped isOpen)
      · rintro _ outcome rfl returned
        refine .refuted ?_
        cases other with
        | going after =>
            exact forEach_keeps
              (fun item mem state outcome => restLater item mem first state outcome) past returned
        | halted reason after =>
            cases returned
            exact past

/-! ## Findings -/

/-- The findings of a search that looks for no answers and has refuted nothing. -/
structure Findings.IsOpen (findings : Findings) : Prop where
  answers : findings.answers = none
  refuted : findings.refuted = false

/-- The findings of a search that looks for no answers and has gone past the refutation in other
findings. -/
structure Findings.IsPast (first findings : Findings) : Prop where
  answers : findings.answers = none
  refuted : findings.refuted = true
  generated : first.generated ≤ findings.generated

namespace Elimination

variable {setup single all : Setup} {p : PredicateSymbol} {state : Elimination} {first : Findings}
  {outcome : Outcome Elimination}

/-- An elimination before and after a refutation. -/
abbrev Leads : Outcome Elimination → Outcome Elimination → Prop :=
  Outcome.Leads (fun state => state.findings.IsOpen)
    fun first state => first.findings.IsPast state.findings

/-! ## After a refutation -/

/-- The state in which the resolvents of a pair are taken, where no answers are collected. -/
def before (pair : Clause × Clause) (state : Elimination) : Elimination :=
  state.noted pair
    { state.findings with signature := (pair.1.renameApart pair.2 state.findings.signature).2.2 }

/-- Without limits and answers, trying a pair is taking its resolvents. -/
theorem absorbAll_of_tryPair (unlimited : setup.config.limits = .unlimited)
    (answers : state.findings.answers = none) {pair : Clause × Clause}
    (returned : (tryPair setup p pair state).Returns outcome) :
    (forEach (absorb setup p pair.1 pair.2) (pair.1.resolvents p pair.2 state.findings.signature).1
      (state.before pair)).Returns outcome := by
  have resolved := resolve_of_tryPair unlimited returned
  simp only [resolve, returns_bind] at resolved
  obtain ⟨looked, lookedReturned, resolved⟩ := resolved
  obtain rfl := Findings.eq_of_noQuery (by exact answers) lookedReturned
  exact resolved

/-- Taking a resolvent in a search for all refutations. -/
theorem absorb_isPast (isAll : setup.mode = .all) {left right r : Clause}
    (past : first.IsPast state.findings)
    (returned : (absorb setup p left right r state).Returns outcome) :
    outcome.Keeps (fun after => first.IsPast after.findings) (· = .capped) := by
  have collects : state.findings.collects p = false := by simp [Findings.collects, past.answers]
  have placed : first.IsPast (state.withResolvent p false left right r).findings := by
    obtain ⟨-, -, sameAnswers, -⟩ := @withResolvent_unchanged p false r left right state
    refine ⟨sameAnswers.trans past.answers, refuted_withResolvent.mpr (.inl past.refuted), ?_⟩
    rw [generated_withResolvent]
    exact Nat.le_succ_of_le past.generated
  rcases absorb_cases collects returned with ⟨-, isSingle, -⟩ | ⟨rfl, -⟩ | ⟨rfl, -⟩
  · cases isAll.symm.trans isSingle
  · exact ⟨rfl, { placed with }⟩
  · exact placed

/-- Trying a pair. -/
theorem tryPair_isPast (unlimited : setup.config.limits = .unlimited) (isAll : setup.mode = .all)
    {pair : Clause × Clause} (past : first.IsPast state.findings)
    (returned : (tryPair setup p pair state).Returns outcome) :
    outcome.Keeps (fun after => first.IsPast after.findings) (· = .capped) :=
  forEach_keeps (fun _ _ _ _ past absorbed => absorb_isPast isAll past absorbed)
    ({ past with } : first.IsPast (state.before pair).findings)
    (absorbAll_of_tryPair unlimited past.answers returned)

/-- All rounds. -/
theorem saturate_isPast (unlimited : setup.config.limits = .unlimited) (isAll : setup.mode = .all)
    (past : first.IsPast state.findings) (returned : (saturate setup p state).Returns outcome) :
    outcome.Keeps (fun after => first.IsPast after.findings) (· = .capped) :=
  @saturate_ends setup p state outcome (fun state => first.IsPast state.findings) _ _
    (fun past roundReturned => (forEach_keeps
      (fun _ _ _ _ past tried => tryPair_isPast unlimited isAll past tried) past roundReturned).imp
        fun next => ⟨next, fun _ => next⟩) past returned

/-! ## Up to a refutation -/

section

variable (isSingle : single.mode = .single) (isAll : all.mode = .all)
  (sameConfig : all.config = single.config)

include isSingle isAll sameConfig

/-- Taking a resolvent. -/
theorem absorb_leads {left right r : Clause} (isOpen : state.findings.IsOpen) :
    Pairs Leads (absorb single p left right r state) (absorb all p left right r state) := by
  have collects : state.findings.collects p = false := by simp [Findings.collects, isOpen.answers]
  obtain ⟨-, -, sameAnswers, -⟩ := @withResolvent_unchanged p false r left right state
  have answers := sameAnswers.trans isOpen.answers
  have isPlaced : (state.record left right r).place p r (r.fate p false) =
      state.withResolvent p false left right r := rfl
  simp only [Elimination.absorb, collects, isPlaced, isSingle, isAll, sameConfig, and_true,
    reduceCtorEq, and_false, if_false]
  refine Pairs.skip (Pairs.skip ?_)
  by_cases fate : r.fate p false = .refutation
  · -- The first elimination is halted, and the second one has noted the refutation.
    have refuted : (state.withResolvent p false left right r).findings.refuted = true :=
      refuted_withResolvent.mpr (.inr fate)
    rw [if_pos fate]
    split
    · rintro _ _ rfl ⟨⟩
      exact .refuted ⟨rfl, answers, refuted, Nat.le_refl _⟩
    · exact Pairs.pure (.refuted ⟨answers, refuted, Nat.le_refl _⟩)
  · have notRefuted : (state.withResolvent p false left right r).findings.refuted = false := by
      rw [← Bool.not_eq_true, refuted_withResolvent, isOpen.refuted]
      simp [fate]
    rw [if_neg fate]
    split
    · exact Pairs.skip (Pairs.pure (.capped ⟨answers, notRefuted⟩))
    · exact Pairs.pure (.going ⟨answers, notRefuted⟩)

variable (unlimited : single.config.limits = .unlimited)

include unlimited

/-- Trying a pair. -/
theorem tryPair_leads {pair : Clause × Clause} (isOpen : state.findings.IsOpen) :
    Pairs Leads (tryPair single p pair state) (tryPair all p pair state) := by
  intro outcome other returned otherReturned
  have absorbed := absorbAll_of_tryPair unlimited isOpen.answers returned
  have otherAbsorbed :=
    absorbAll_of_tryPair (sameConfig ▸ unlimited) isOpen.answers otherReturned
  have opened : (state.before pair).findings.IsOpen := ⟨isOpen.answers, isOpen.refuted⟩
  exact forEach_leads (fun r _ state isOpen => absorb_leads isSingle isAll sameConfig isOpen)
    (fun r _ first state outcome past => absorb_isPast isAll past) opened _ _ absorbed otherAbsorbed

/-- All rounds. -/
theorem saturate_leads (isOpen : state.findings.IsOpen) :
    Pairs Leads (saturate single p state) (saturate all p state) := by
  have otherUnlimited : all.config.limits = .unlimited := sameConfig ▸ unlimited
  induction state using saturate.induct single with
  | case1 state ih =>
      rw [Elimination.saturate, Elimination.saturate]
      refine Pairs.bind (forEach_leads
        (fun pair _ state isOpen => tryPair_leads isSingle isAll sameConfig unlimited isOpen)
        (fun pair _ first state outcome past => tryPair_isPast otherUnlimited isAll past) isOpen) ?_
      rintro _ other (@⟨after, afterOpen⟩ | afterOpen | @⟨first, _, past⟩)
      · simp only [sameConfig]
        split
        · rename_i another
          exact ih after another afterOpen
        · exact Pairs.pure (.going afterOpen)
      · exact Pairs.pure (.capped afterOpen)
      · rintro _ outcome rfl returned
        refine .refuted ?_
        cases other with
        | halted reason after =>
            cases returned
            exact past
        | going after =>
            simp only at returned
            split at returned
            · have next : first.findings.IsPast after.nextRound.findings := past
              exact saturate_isPast otherUnlimited isAll next returned
            · cases returned
              exact past

end

end Elimination

/-! ## Searches -/

namespace Search

variable {setup single all : Setup} {p : PredicateSymbol} {search : Search}
  {outcome : Outcome Search}

/-- A search of an indexed store that has refuted nothing. -/
structure IsOpen (search : Search) : Prop where
  indexed : search.store.IsIndexed
  findings : search.findings.IsOpen

/-- A search of an indexed store that has gone past the refutation of another one. -/
structure IsPast (first search : Search) : Prop where
  indexed : search.store.IsIndexed
  findings : first.findings.IsPast search.findings

theorem goOn_isPast {first : Search} {rest : Store} (indexed : rest.IsIndexed)
    {ended : Outcome Elimination}
    (past : ended.Keeps (fun state => first.findings.IsPast state.findings) (· = .capped)) :
    (goOn rest ended).Keeps first.IsPast (· = .capped) := by
  refine goOn_ends ?_
  cases ended with
  | going state => exact ⟨indexed.insertAll _, past⟩
  | halted reason state =>
      exact ⟨fun _ => ⟨indexed.insertAll _, past.2⟩, fun notCapped => absurd past.1 notCapped⟩

/-- Eliminating a predicate after a refutation. -/
theorem eliminate_isPast (unlimited : setup.config.limits = .unlimited) (isAll : setup.mode = .all)
    {first : Search} (past : first.IsPast search)
    (returned : (eliminate setup p search).Returns outcome) :
    outcome.Keeps first.IsPast (· = .capped) := by
  rcases eliminates_of_unlimited unlimited past.indexed.toConsistent returned with
    ⟨splits, -⟩ | @⟨bucket, rest, ended, splits, -, ran⟩
  · exact ⟨(past.indexed.of_takeBucket splits.taken).1, past.findings⟩
  have started : first.findings.IsPast (Elimination.start bucket search.findings).findings :=
    past.findings
  exact goOn_isPast (past.indexed.of_takeBucket splits.taken).1
    (Elimination.saturate_isPast unlimited isAll started (Elimination.saturate_of_run ran))

section

variable (isSingle : single.mode = .single) (isAll : all.mode = .all)
  (sameConfig : all.config = single.config) (unlimited : single.config.limits = .unlimited)

include isSingle isAll sameConfig unlimited

/-- Eliminating a predicate. -/
theorem eliminate_leads (isOpen : search.IsOpen) :
    Pairs (Outcome.Leads IsOpen IsPast) (eliminate single p search) (eliminate all p search) := by
  intro outcome other returned otherReturned
  have consistent := isOpen.indexed.toConsistent
  obtain ⟨bucket, rest, splits⟩ := consistent.exists_splits p
  have restIndexed := (isOpen.indexed.of_takeBucket splits.taken).1
  have eliminated := (eliminates_of_unlimited unlimited consistent returned).of_taken splits.taken
  have otherEliminated := (eliminates_of_unlimited (sameConfig ▸ unlimited) consistent
    otherReturned).of_taken splits.taken
  split at eliminated <;> rename_i isEmpty
  · rw [if_pos isEmpty] at otherEliminated
    subst eliminated otherEliminated
    exact .going ⟨restIndexed, isOpen.findings⟩
  · rw [if_neg isEmpty] at otherEliminated
    obtain ⟨ended, ran, rfl⟩ := eliminated
    obtain ⟨otherEnded, otherRan, rfl⟩ := otherEliminated
    have started : (Elimination.start bucket search.findings).findings.IsOpen := isOpen.findings
    rcases Elimination.saturate_leads isSingle isAll sameConfig unlimited started _ _
      (Elimination.saturate_of_run ran) (Elimination.saturate_of_run otherRan) with
      afterOpen | afterOpen | past
    · exact .going ⟨restIndexed.insertAll _, afterOpen⟩
    · exact .going ⟨restIndexed.insertAll _, afterOpen⟩
    · exact .refuted (goOn_isPast restIndexed past)

/-- Eliminating the predicates of an order. -/
theorem run_leads {order : EliminationOrder} (isOpen : search.IsOpen) :
    Pairs (Outcome.Leads IsOpen IsPast) (run single order search) (run all order search) := by
  have later (first search : Search) (p : PredicateSymbol) (outcome : Outcome Search)
      (past : first.IsPast search) (returned : (eliminate all p search).Returns outcome) :
      outcome.Keeps first.IsPast (· = .capped) :=
    eliminate_isPast (sameConfig ▸ unlimited) isAll past returned
  simp only [run, isSingle, isAll, if_true, reduceCtorEq, if_false]
  split
  · -- The store has the empty clause, which only the second search goes past.
    refine Pairs.skip ?_
    rintro _ outcome rfl returned
    have noted : IsPast { search with findings := { search.findings with refuted := true } }
        { search with findings := { search.findings with refuted := true } } :=
      ⟨isOpen.indexed, isOpen.findings.answers, rfl, Nat.le_refl _⟩
    exact .refuted (forEach_keeps (fun p _ search outcome => later _ search p outcome) noted
      returned)
  · exact forEach_leads
      (fun p _ search isOpen => eliminate_leads isSingle isAll sameConfig unlimited isOpen)
      (fun p _ first search outcome => later first search p outcome) isOpen

end

end Search

/-- For every store that can be built, every order, every cap and every signature, the search for
one refutation and the search for all of them both end with a result.  The one says that the store
is refuted exactly when the other one does, and the search for one refutation makes no more
resolvents.  When the store is not refuted, the two results and the signatures they leave are the
same. -/
theorem Store.refute_single_agrees_with_all {config : Config}
    (unlimited : config.limits = .unlimited) (operations : List Store.Operation)
    (order : EliminationOrder) (signature : Signature) (start otherStart : Duration) :
    let store := Store.empty.performAll operations
    (store.refute ⟨config, .single, start⟩ order none signature).Always fun single =>
      (store.refute ⟨config, .all, otherStart⟩ order none signature).Always fun all =>
        ∃ one every, single.1 = .ok one ∧ all.1 = .ok every ∧
          (one.status = .refuted ↔ every.status = .refuted) ∧ one.generated ≤ every.generated ∧
          (one.status ≠ .refuted → all = single) := by
  intro store
  refine (Monitored.always_iff _).mpr fun single returned =>
    (Monitored.always_iff _).mpr fun all otherReturned => ?_
  obtain ⟨outcome, outcomeReturned, ended⟩ := (returns_bind ..).mp returned
  obtain ⟨other, otherOutcomeReturned, otherEnded⟩ := (returns_bind ..).mp otherReturned
  cases ended
  cases otherEnded
  have isOpen : (Search.start ⟨config, .single, start⟩ store none signature).IsOpen :=
    ⟨isIndexed_performAll operations, rfl, rfl⟩
  have leads := @Search.run_leads ⟨config, .single, start⟩ ⟨config, .all, otherStart⟩ _ rfl rfl rfl
    unlimited order isOpen outcome other outcomeReturned otherOutcomeReturned
  cases leads with
  | going afterOpen =>
      exact ⟨_, _, rfl, rfl, Iff.rfl, Nat.le_refl _, fun _ => rfl⟩
  | capped => exact ⟨_, _, rfl, rfl, Iff.rfl, Nat.le_refl _, fun _ => rfl⟩
  | refuted past =>
      cases other with
      | going search =>
          have refuted : (if search.findings.refuted then Status.refuted else .exhausted) =
              .refuted := if_pos past.findings.refuted
          exact ⟨_, _, rfl, rfl, iff_of_true rfl refuted, past.findings.generated,
            fun notRefuted => absurd rfl notRefuted⟩
      | halted reason search =>
          obtain ⟨rfl, searchPast⟩ := past
          exact ⟨_, _, rfl, rfl, Iff.rfl, searchPast.findings.generated,
            fun notRefuted => absurd rfl notRefuted⟩

/-- The clauses `p`, `¬p`, `q` and `¬q`, which have two refutations. -/
def twoConflicts : List Store.Operation :=
  [.insert (.ofList [.positive ⟨⟨0⟩, []⟩]), .insert (.ofList [.negative ⟨⟨0⟩, []⟩]),
   .insert (.ofList [.positive ⟨⟨1⟩, []⟩]), .insert (.ofList [.negative ⟨⟨1⟩, []⟩])]

/-- The two refutations of the four clauses are both found by the search for all of them, and one of
them by the search for one. -/
theorem Store.refute_single_agrees_with_all_twoConflicts :
    Config.default.limits = .unlimited ∧ ∃ one every extended otherExtended,
      ((Store.empty.performAll twoConflicts).refute ⟨.default, .single, .zero⟩ (.fixed [⟨0⟩, ⟨1⟩])
        none .empty).Returns (.ok one, extended) ∧
      ((Store.empty.performAll twoConflicts).refute ⟨.default, .all, .zero⟩ (.fixed [⟨0⟩, ⟨1⟩])
        none .empty).Returns (.ok every, otherExtended) ∧
      one.generated = 1 ∧ every.generated = 2 ∧ one.status = .refuted ∧
      (one.status = .refuted ↔ every.status = .refuted) := by
  have run : (((Store.empty.performAll twoConflicts).refute ⟨.default, .single, .zero⟩
      (.fixed [⟨0⟩, ⟨1⟩]) none .empty).run .zero none).1.1.toOption.map
        (fun one => (one.generated, one.status)) = some (1, .refuted) := by
    cbv
  have otherRun : (((Store.empty.performAll twoConflicts).refute ⟨.default, .all, .zero⟩
      (.fixed [⟨0⟩, ⟨1⟩]) none .empty).run .zero none).1.1.toOption.map
        (fun every => every.generated) = some 2 := by
    cbv
  obtain ⟨one, extended, returned, seen⟩ := exists_run_ok_with _ run
  obtain ⟨every, otherExtended, otherReturned, otherGenerated⟩ := exists_run_ok_with _ otherRun
  obtain ⟨generated, status⟩ := Prod.mk.inj seen
  obtain ⟨-, always⟩ := @Store.refute_single_agrees_with_all .default rfl twoConflicts
    (.fixed [⟨0⟩, ⟨1⟩]) .empty .zero .zero
  obtain ⟨-, both⟩ := always _ returned
  obtain ⟨_, _, ⟨⟩, ⟨⟩, agree, -⟩ := both _ otherReturned
  exact ⟨rfl, one, every, extended, otherExtended, returned, otherReturned, generated,
    otherGenerated, status, agree⟩

end Entailment.FirstOrder
