import Entailment.Proofs.FirstOrder.AnswerSearch
import Entailment.Proofs.FirstOrder.ExhaustiveElimination
import Entailment.Proofs.FirstOrder.FactResolution
import Entailment.Proofs.FirstOrder.GreedyOrder
import Entailment.Proofs.FirstOrder.GroundDecision

/-!
# A search over facts finds every answer

A store holds facts, a rule that leads to an answer, and a goal that asks for it.
The answer predicate is eliminated last.  Eliminating any other predicate resolves
its conditions in the rule away, one by one, with the facts that they become, and
keeps a rule that leads to the same answer.  When only the answer predicate is left
the rule has become the answer, and the answer meets the goal.  Without limits
nothing stands in the way but the cap, and the search says so if it is reached.
-/

namespace Entailment.FirstOrder

open Monitored (returns_bind)

/-! ## The predicates that are left -/

/-- A clause over a signature that mentions some predicates only. -/
structure Clause.IsWithin (left : List PredicateSymbol) (signature : Signature) (c : Clause) :
    Prop where
  isOver : c.IsOver signature
  mentioned : ∀ q, c.mentions q = true → q ∈ left

/-- Nothing is promised of the answers. -/
def Promise.nothing : Promise where
  answer _ _ := True
  refuted := True

/-- Eliminating a predicate leaves clauses with the other predicates. -/
def Guarantee.eliminating (p : PredicateSymbol) (left : List PredicateSymbol) : Guarantee where
  toPromise := .nothing
  bucket := Clause.IsWithin (p :: left)
  kept := Clause.IsWithin left

theorem Clause.IsWithin.tail {p : PredicateSymbol} {left : List PredicateSymbol}
    {signature : Signature} {c : Clause} (isWithin : c.IsWithin (p :: left) signature)
    (absent : c.mentions p = false) : c.IsWithin left signature := by
  refine ⟨isWithin.isOver, fun q mentioned => ?_⟩
  refine (List.mem_cons.mp (isWithin.mentioned q mentioned)).resolve_left ?_
  rintro rfl
  cases absent.symm.trans mentioned

theorem Guarantee.maintained_eliminating (p : PredicateSymbol) (left : List PredicateSymbol)
    (filter : AnswerFilter) (collects : Bool) :
    (eliminating p left).Maintained filter p collects where
  bucketGrows grows isWithin := ⟨isWithin.isOver.mono grows, isWithin.mentioned⟩
  keptGrows grows isWithin := ⟨isWithin.isOver.mono grows, isWithin.mentioned⟩
  answerGrows _ _ := trivial
  bucketOver isWithin := isWithin.isOver
  resolvent := by
    intro signature extended c d leftCopy rightCopy r apart cWithin dWithin mem
    have isWithin : r.IsWithin (p :: left) extended := by
      refine ⟨(RenamedApart.resolvent_spec.{0} apart mem).1, fun q mentioned => ?_⟩
      exact (Attempt.mentions_of_mem_resolvents apart.leftVariant apart.rightVariant mem
        mentioned).elim (cWithin.mentioned q) (dWithin.mentioned q)
    have fateSpec := r.fate_spec p collects
    cases fate : r.fate p collects with
    | refutation => trivial
    | tautology => trivial
    | disjunctiveAnswer => trivial
    | returned => exact isWithin
    | kept =>
        rw [fate] at fateSpec
        exact isWithin.tail fateSpec.1
  answered _ _ _ _ _ _ _ _ := trivial

/-! ## One elimination -/

variable {isFact : Atom → Prop} {target : Atom} {base : Signature} {filter : AnswerFilter}
  {p : PredicateSymbol}

/-- A complete elimination of another predicate keeps a rule that leads to the same
atom: each resolution with a fact takes one condition away. -/
theorem Elimination.IsComplete.exists_kept {invariant : Elimination → Prop}
    {start state : Elimination}
    (complete : IsComplete invariant (HasTried base filter p false) start state)
    (notTarget : p ≠ target.predicate)
    (facts : ∀ a, isFact a → a.predicate = p →
      a.isGround = true ∧ Clause.fact a ∈ state.side .positive)
    {c : Clause} (leads : c.LeadsTo isFact target) (mem : c ∈ state.side .negative)
    (onNegative : c.hasLiteralOn p .negative = true) :
    ∃ r ∈ state.kept, r.LeadsTo isFact target := by
  induction size : c.literals.length using Nat.strongRecOn generalizing c with
  | ind _ ih =>
      subst size
      obtain ⟨image, leadsAt⟩ := leads
      obtain ⟨⟨b, sign⟩, bMem, isOn⟩ := List.any_eq_true.mp onNegative
      obtain ⟨onPredicate, rfl⟩ : b.predicate = p ∧ sign = .negative := by
        simpa [Clause.isOn] using isOn
      obtain ⟨-, becomesFact⟩ := leadsAt.conditions b bMem
      obtain ⟨ground, factMem⟩ := facts _ becomesFact onPredicate
      have different : Clause.fact (b.replace image) ≠ c := by
        rintro rfl
        simp [Clause.fact, Literal.positive] at bMem
      obtain ⟨left, right, extended, copied, accounts, -⟩ :=
        complete.tried _ factMem c mem different
      obtain rfl := copied.leftCopy.eq_fact ground
      obtain ⟨carried, rightLeads, notLonger, copies⟩ := leadsAt.copy copied.rightCopy
      obtain ⟨b', copyMem, samePredicate, becomes⟩ := copies b bMem
      obtain ⟨r, rMem, rLeads, shorter⟩ := rightLeads.exists_resolvent copied.proper ground
        copied.leftOver copied.rightOver copied.rightVars copyMem (samePredicate.trans onPredicate)
        becomes
      have accounted := accounts r rMem
      unfold Accounts at accounted
      rcases rLeads.fate_eq notTarget with fate | ⟨fate, stillThere⟩
      · rw [fate] at accounted
        exact ⟨r, accounted, rLeads⟩
      · rw [fate] at accounted
        exact ih _ (Nat.lt_of_lt_of_le shorter notLonger) rLeads (accounted .negative stillThere)
          stillThere rfl

/-- A complete elimination of the answer predicate reports an atom that meets a goal
that asks for it. -/
theorem Elimination.IsComplete.reports {invariant : Elimination → Prop} {start state : Elimination}
    (complete : IsComplete invariant (HasTried base filter target.predicate true) start state)
    (ground : target.isGround = true) (isOver : ∀ t ∈ target.args, t.IsOver base)
    (accepted : filter.accepts target.args = true)
    (factMem : Clause.fact target ∈ state.side .positive) {goal : Clause}
    (asks : goal.AsksFor target) (goalMem : goal ∈ state.side .negative) :
    state.findings.Reports (target.args.map base.renderTerm) := by
  have different : Clause.fact target ≠ goal := by
    rintro rfl
    obtain ⟨a, image, single, -⟩ := asks
    simp [Clause.fact, Literal.positive, Literal.negative] at single
  obtain ⟨left, right, extended, copied, -, answered⟩ :=
    complete.tried _ factMem goal goalMem different
  obtain rfl := copied.leftCopy.eq_fact ground
  obtain ⟨attempt, attemptMem, isRefutation, isTuple⟩ :=
    (asks.copy copied.rightCopy).exists_attempt ground
  have reported := answered attempt attemptMem rfl isRefutation _ isTuple accepted
  have samePrinting : target.args.map extended.renderTerm = target.args.map base.renderTerm :=
    List.map_congr_left fun t mem => copied.gains.grows.renderTerm (isOver t mem)
  rwa [samePrinting] at reported

/-! ## The search -/

/-- An answer that a search can find: a rule of the store leads to it, a goal of the
store asks for it, and the filter lets it through. -/
structure Store.HasAnswer (store : Store) (isFact : Atom → Prop) (base : Signature)
    (filter : AnswerFilter) (target : Atom) : Prop where
  ground : target.isGround = true
  isOver : ∀ t ∈ target.args, t.IsOver base
  accepted : filter.accepts target.args = true
  leads : ∃ c ∈ store, c.LeadsTo isFact target
  asks : ∃ c ∈ store, c.AsksFor target

namespace Search

/-- A search over facts, rules and goals before the answer predicate is eliminated.
The clauses of the store whose predicates are all left are still there, and unless
the search was cut short there are rules that lead to the same answers. -/
structure Pursues (store : Store) (isFact : Atom → Prop) (answer : PredicateSymbol)
    (base : Signature) (names : List String) (left : List PredicateSymbol) (search : Search) :
    Prop where
  meets : search.Meets (Clause.IsWithin left) .nothing base (some (answer, names))
  tallies : search.findings.Tallies (some (answer, names))
  remains : ∀ c ∈ store, (∀ q, c.mentions q = true → q ∈ left) → c ∈ search.store
  leads : search.findings.truncated = false → ∀ target : Atom, target.predicate = answer →
    (∃ c ∈ store, c.LeadsTo isFact target) → ∃ c ∈ search.store, c.LeadsTo isFact target

/-- A search after the answer predicate was eliminated: unless it was cut short, all
answers are in the table. -/
structure HasCollected (store : Store) (isFact : Atom → Prop) (answer : PredicateSymbol)
    (base : Signature) (names : List String) (filter : AnswerFilter) (search : Search) :
    Prop where
  tallies : search.findings.Tallies (some (answer, names))
  reports : search.findings.truncated = false → ∀ target : Atom, target.predicate = answer →
    store.HasAnswer isFact base filter target →
      search.findings.Reports (target.args.map base.renderTerm)

namespace Pursues

variable {store : Store} {answer : PredicateSymbol} {names : List String}
  {left : List PredicateSymbol} {search : Search} {setup : Setup}
variable {outcome : Outcome Search}

/-- What the elimination of the next predicate comes to.  It is not halted but at
the cap, and the search goes on in any case. -/
theorem eliminate_returns (unlimited : setup.config.limits = .unlimited) (all : setup.mode = .all)
    (proper : base.IsProper) (arity : (base.predicateInfo answer).arity = names.length)
    (pursues : search.Pursues store isFact answer base names (p :: left))
    (returned : (Search.eliminate setup p search).Returns outcome) :
    ∃ bucket rest, search.store.Splits p bucket rest ∧
      ((outcome = .going { search with store := rest } ∧ bucket.isEmpty = true) ∨
        ∃ state, outcome = .going (Search.after rest state) ∧
          state.IsCollecting (.eliminating p left) base (some (answer, names)) ∧
          (state.findings.truncated = true ∨ Elimination.IsComplete
            (Elimination.IsCollecting (.eliminating p left) base (some (answer, names)))
            (Elimination.HasTried base setup.config.answerFilter p (decide (answer = p)))
            (.start bucket search.findings) state)) := by
  rcases eliminates_of_unlimited unlimited pursues.meets.consistent returned with
    @⟨bucket, rest, splits, isEmpty⟩ | @⟨bucket, rest, ended, splits, -, ran⟩
  · exact ⟨bucket, rest, splits, .inl ⟨rfl, isEmpty⟩⟩
  · have maintained := Guarantee.maintained_eliminating p left setup.config.answerFilter
      (collectsFor (some (answer, names)) p)
    have explores := Elimination.explores_of_maintained unlimited all
      (fun entry isEntry => by cases isEntry; exact arity) proper maintained
    have started : (Elimination.start bucket search.findings).IsCollecting
        (.eliminating p left) base (some (answer, names)) :=
      ⟨pursues.meets.start (fun isWithin _ => isWithin) splits, pursues.tallies⟩
    have ends := explores.run started ran
    refine ⟨bucket, rest, splits, .inr ?_⟩
    cases ended with
    | going state => exact ⟨state, rfl, ends.keeps, .inr ends⟩
    | halted halt state =>
        obtain ⟨rfl, collecting, truncated⟩ := ends
        exact ⟨state, rfl, collecting, .inl truncated⟩

/-- The search after an elimination, as far as its clauses and its table go. -/
theorem meets_eliminate (pursues : search.Pursues store isFact answer base names (p :: left))
    {after : Search} (returned : (Search.eliminate setup p search).Returns (.going after)) :
    after.Meets (Clause.IsWithin left) .nothing base (some (answer, names)) :=
  Search.Meets.eliminate
    (Guarantee.maintained_eliminating p left setup.config.answerFilter
      (collectsFor (some (answer, names)) p))
    (fun isWithin _ => isWithin) (fun isWithin absent => isWithin.tail absent) pursues.meets
    returned

/-- Eliminating another predicate than the answer predicate. -/
theorem eliminate (unlimited : setup.config.limits = .unlimited) (all : setup.mode = .all)
    (proper : base.IsProper) (arity : (base.predicateInfo answer).arity = names.length)
    (facts : ∀ a, isFact a → a.isGround = true ∧ Clause.fact a ∈ store) (notAnswer : p ≠ answer)
    (absent : p ∉ left) (pursues : search.Pursues store isFact answer base names (p :: left))
    (returned : (Search.eliminate setup p search).Returns outcome) :
    outcome.Ends (Search.Pursues store isFact answer base names left) fun _ _ => False := by
  obtain ⟨bucket, rest, splits, ended⟩ :=
    pursues.eliminate_returns unlimited all proper arity returned
  have stays (c : Clause) (mem : c ∈ store) (isLeft : ∀ q, c.mentions q = true → q ∈ left) :
      c ∈ rest := by
    refine splits.mem_rest.mpr ⟨pursues.remains c mem fun q mentioned =>
      List.mem_cons_of_mem _ (isLeft q mentioned), ?_⟩
    exact Bool.eq_false_iff.mpr fun mentioned => absent (isLeft p mentioned)
  rcases ended with ⟨rfl, isEmpty⟩ | ⟨state, rfl, collecting, isDone⟩
  · refine ⟨pursues.meets_eliminate returned, pursues.tallies, stays, ?_⟩
    intro whole target onAnswer hasRule
    obtain ⟨c, mem, leads⟩ := pursues.leads whole target onAnswer hasRule
    exact ⟨c, splits.mem_rest.mpr ⟨mem, splits.not_mentions isEmpty mem⟩, leads⟩
  · obtain ⟨-, mem_after⟩ := splits.consistent.insertAll state.kept
    refine ⟨pursues.meets_eliminate returned, collecting.tallies,
      fun c mem isLeft => (mem_after c).mpr (.inr (stays c mem isLeft)), ?_⟩
    intro whole target onAnswer hasRule
    rcases isDone with truncated | complete
    · cases truncated.symm.trans whole
    · rw [decide_eq_false (Ne.symm notAnswer)] at complete
      obtain ⟨c, mem, leads⟩ :=
        pursues.leads (complete.truncated.symm.trans whole) target onAnswer hasRule
      have toSide {sign : Sign} {d : Clause} (inStore : d ∈ search.store)
          (onSide : d.hasLiteralOn p sign = true) : d ∈ state.side sign :=
        complete.grows.side sign d
          (Elimination.mem_side_start.mpr (splits.mem_side.mpr ⟨inStore, onSide⟩))
      cases mentioned : c.mentions p with
      | false => exact ⟨c, (mem_after c).mpr (.inr (splits.mem_rest.mpr ⟨mem, mentioned⟩)), leads⟩
      | true =>
          have notTarget : p ≠ target.predicate := onAnswer ▸ notAnswer
          have onNegative := leads.hasLiteralOn_negative notTarget mentioned
          have factsOnSide (a : Atom) (isIt : isFact a) (onPredicate : a.predicate = p) :
              a.isGround = true ∧ Clause.fact a ∈ state.side .positive := by
            refine ⟨(facts a isIt).1, toSide (pursues.remains _ (facts a isIt).2 ?_) ?_⟩
            · intro q isMentioned
              rw [Clause.mentions_fact.mp isMentioned, onPredicate]
              exact List.mem_cons_self ..
            · exact Clause.hasLiteralOn_fact onPredicate
          obtain ⟨r, rMem, rLeads⟩ :=
            complete.exists_kept notTarget factsOnSide leads (toSide mem onNegative) onNegative
          exact ⟨r, (mem_after r).mpr (.inl rMem), rLeads⟩

/-- Eliminating the answer predicate last. -/
theorem collect (unlimited : setup.config.limits = .unlimited) (all : setup.mode = .all)
    (proper : base.IsProper) (arity : (base.predicateInfo answer).arity = names.length)
    (pursues : search.Pursues store isFact answer base names [answer])
    (returned : (Search.eliminate setup answer search).Returns outcome) :
    outcome.Ends (Search.HasCollected store isFact answer base names setup.config.answerFilter)
      fun _ _ => False := by
  obtain ⟨bucket, rest, splits, ended⟩ :=
    pursues.eliminate_returns unlimited all proper arity returned
  have goalRemains {target : Atom} (onAnswer : target.predicate = answer) {goal : Clause}
      (goalMem : goal ∈ store) (asks : goal.AsksFor target) :
      goal ∈ search.store ∧ goal.hasLiteralOn answer .negative = true := by
    subst onAnswer
    refine ⟨pursues.remains goal goalMem fun q mentioned => ?_, asks.hasLiteralOn_negative⟩
    exact List.mem_singleton.mpr (asks.mentions_iff.mp mentioned)
  rcases ended with ⟨rfl, isEmpty⟩ | ⟨state, rfl, collecting, isDone⟩
  · refine ⟨pursues.tallies, fun _ target onAnswer hasAnswer => ?_⟩
    obtain ⟨goal, goalMem, asks⟩ := hasAnswer.asks
    obtain ⟨inStore, onNegative⟩ := goalRemains onAnswer goalMem asks
    have mentioned := Store.mentions_iff.mpr ⟨_, onNegative⟩
    cases mentioned.symm.trans (splits.not_mentions isEmpty inStore)
  · refine ⟨collecting.tallies, fun whole target onAnswer hasAnswer => ?_⟩
    rcases isDone with truncated | complete
    · cases truncated.symm.trans whole
    · obtain ⟨goal, goalMem, asks⟩ := hasAnswer.asks
      obtain ⟨inStore, onNegative⟩ := goalRemains onAnswer goalMem asks
      obtain ⟨c, mem, leads⟩ :=
        pursues.leads (complete.truncated.symm.trans whole) target onAnswer hasAnswer.leads
      subst onAnswer
      have toSide {sign : Sign} {d : Clause} (inStore : d ∈ search.store)
          (onSide : d.hasLiteralOn target.predicate sign = true) : d ∈ state.side sign :=
        complete.grows.side sign d
          (Elimination.mem_side_start.mpr (splits.mem_side.mpr ⟨inStore, onSide⟩))
      -- The conditions of the rule are gone, since their predicates are.
      have isAnswer : c = Clause.fact target := leads.eq_fact fun a aMem => by
        obtain ⟨image, leadsAt⟩ := leads
        refine (leadsAt.conditions a aMem).1 (List.mem_singleton.mp ?_)
        refine (pursues.meets.clauses c mem).mentioned _ ?_
        exact List.any_eq_true.mpr ⟨_, aMem, by simp [Literal.negative]⟩
      subst isAnswer
      rw [decide_eq_true rfl] at complete
      exact complete.reports hasAnswer.ground hasAnswer.isOver hasAnswer.accepted
        (toSide mem (Clause.hasLiteralOn_fact rfl)) asks (toSide inStore onNegative)

end Pursues

/-- A search with some predicates ahead of it, of which the answer predicate is the
last, or after the last of them. -/
def IsAhead (store : Store) (isFact : Atom → Prop) (answer : PredicateSymbol) (base : Signature)
    (names : List String) (filter : AnswerFilter) (left : List PredicateSymbol)
    (search : Search) : Prop :=
  (∃ before, left = before ++ [answer] ∧ left.Nodup ∧
      search.Pursues store isFact answer base names left) ∨
    left = [] ∧ search.HasCollected store isFact answer base names filter

/-- Eliminating one predicate after the other. -/
theorem IsAhead.eliminate {store : Store} {answer : PredicateSymbol} {names : List String}
    {left : List PredicateSymbol} {search : Search} {setup : Setup}
    (unlimited : setup.config.limits = .unlimited) (all : setup.mode = .all)
    (proper : base.IsProper) (arity : (base.predicateInfo answer).arity = names.length)
    (facts : ∀ a, isFact a → a.isGround = true ∧ Clause.fact a ∈ store)
    (ahead : search.IsAhead store isFact answer base names setup.config.answerFilter (p :: left))
    {outcome : Outcome Search} (returned : (Search.eliminate setup p search).Returns outcome) :
    outcome.Ends (IsAhead store isFact answer base names setup.config.answerFilter left)
      fun _ _ => False := by
  rcases ahead with ⟨before, isOrder, nodup, pursues⟩ | ⟨isEmpty, -⟩
  · obtain ⟨absent, restNodup⟩ := List.nodup_cons.mp nodup
    cases before with
    | nil =>
        obtain ⟨rfl, rfl⟩ := List.cons.inj isOrder
        exact (pursues.collect unlimited all proper arity returned).imp fun done =>
          .inr ⟨rfl, done⟩
    | cons q others =>
        obtain ⟨rfl, rfl⟩ := List.cons.inj isOrder
        have notAnswer : p ≠ answer := by
          rintro rfl
          exact absent (List.mem_append_right _ (List.mem_singleton.mpr rfl))
        exact (pursues.eliminate unlimited all proper arity facts notAnswer absent returned).imp
          fun next => .inl ⟨others, rfl, restNodup, next⟩
  · cases isEmpty

end Search

/-- A refutation that looks for all answers, without limits, over a store with facts.
It ends with a table in which no tuple is listed twice, and unless it was cut short
the table has all answers. -/
theorem Store.refute_collects {setup : Setup} {order : EliminationOrder} {store : Store}
    {answer : PredicateSymbol} {names : List String} {signature extended : Signature}
    {result : Except Error Refutation} (unlimited : setup.config.limits = .unlimited)
    (all : setup.mode = .all) (proper : signature.IsProper) (consistent : store.Consistent)
    (isOver : ∀ c ∈ store, c.IsOver signature) (noEmpty : store.containsEmpty = false)
    (serves : order.Serves store.predicates (some answer)) (hasGoal : answer ∈ store.predicates)
    (arity : (signature.predicateInfo answer).arity = names.length)
    (facts : ∀ a, isFact a → a.isGround = true ∧ Clause.fact a ∈ store)
    (returned : (store.refute setup order (some ⟨answer, .start names⟩) signature).Returns
      (result, extended)) :
    ∃ refutation answers, result = .ok refutation ∧ refutation.answers = some answers ∧
      answers.vars = names ∧ answers.tuples.Nodup ∧
      (refutation.truncated = false → ∀ target : Atom, target.predicate = answer →
        store.HasAnswer isFact signature setup.config.answerFilter target →
          target.args.map signature.renderTerm ∈ answers.tuples) := by
  obtain ⟨outcome, outcomeReturned, ended⟩ := (returns_bind ..).mp returned
  obtain ⟨isResult, -⟩ := Prod.mk.inj ended
  obtain ⟨before, isOrder, -⟩ := serves.answerLast answer rfl hasGoal
  have findings : (Search.start setup store (some ⟨answer, .start names⟩) signature).findings.Meets
      .nothing signature (some (answer, names)) :=
    ⟨.refl signature, proper.hasCanonical, rfl, fun _ _ _ _ => trivial, fun _ => trivial⟩
  have tallies : Findings.Tallies (some (answer, names))
      (Search.start setup store (some ⟨answer, .start names⟩) signature).findings := by
    refine ⟨rfl, ?_⟩
    rintro query ⟨⟩
    exact .nil
  have pursues : (Search.start setup store (some ⟨answer, .start names⟩) signature).Pursues store
      isFact answer signature names order.order :=
    ⟨⟨consistent, findings, fun c mem => ⟨isOver c mem, fun q mentioned =>
      serves.complete q (consistent.mem_predicates mem mentioned)⟩⟩, tallies,
      fun c mem _ => mem, fun _ _ _ hasRule => hasRule⟩
  have ends : outcome.Ends (Search.IsAhead store isFact answer signature names
      setup.config.answerFilter []) fun _ _ => False := by
    refine Search.run_returns (fun p rest search outcome ahead eliminated =>
      ahead.eliminate unlimited all proper arity facts eliminated)
      (fun _ => .inl ⟨before, isOrder, serves.nodup, pursues⟩) (fun isEmpty => ?_) outcomeReturned
    cases noEmpty.symm.trans isEmpty
  cases outcome with
  | halted halt search => exact ends.elim
  | going search =>
      rcases ends with ⟨before, isOrder, -⟩ | ⟨-, collected⟩
      · simp at isOrder
      · obtain ⟨query, current, isHeading⟩ :=
          Option.map_eq_some_iff.mp collected.tallies.heading
        obtain ⟨-, isNames⟩ := Prod.mk.inj isHeading
        refine ⟨_, query.answers, isResult.symm, ?_, isNames,
          (collected.tallies.increasing query current).nodup, ?_⟩
        · simp only [Search.finish, current, Option.map_some]
        · intro whole target onAnswer hasAnswer
          obtain ⟨other, isIt, mem⟩ := collected.reports whole target onAnswer hasAnswer
          cases current.symm.trans isIt
          exact mem

end Entailment.FirstOrder
