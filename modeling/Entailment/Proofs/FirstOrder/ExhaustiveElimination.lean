import Entailment.Proofs.FirstOrder.Copies
import Entailment.Proofs.FirstOrder.Saturation

/-!
# Eliminations that collect all answers

A search for answers goes on after a refutation, and without limits it is only cut
short at the cap.  An elimination that is not cut short has tried every pair of
clauses: it has renamed them apart, every resolvent is where it belongs, and where
answers are collected every answer that the pair gives and the filter lets through
is in the table.  The table lists no tuple twice.
-/

namespace Entailment.FirstOrder

open Monitored (returns_bind)

variable {promise : Promise} {guarantee : Guarantee} {base : Signature}
  {heading : Option (PredicateSymbol × List String)} {p : PredicateSymbol} {setup : Setup}

/-! ## The table of answers -/

/-- A table of answers with a heading, in which no tuple is listed twice. -/
structure Findings.Tallies (heading : Option (PredicateSymbol × List String))
    (findings : Findings) : Prop where
  heading : findings.answers.map AnswerQuery.heading = heading
  increasing : ∀ query ∈ findings.answers, Sorted.IsIncreasing query.answers.tuples

/-- From some findings to others with the same signature: no answer is taken back
and the search goes on. -/
structure Findings.AddsTo (findings after : Findings) : Prop where
  signature : after.signature = findings.signature
  truncated : after.truncated = findings.truncated
  refuted : after.refuted = findings.refuted
  reports : ∀ printed, findings.Reports printed → after.Reports printed

theorem Findings.AddsTo.refl (findings : Findings) : findings.AddsTo findings :=
  ⟨rfl, rfl, rfl, fun _ => id⟩

theorem Findings.AddsTo.trans {first second third : Findings} (before : first.AddsTo second)
    (after : second.AddsTo third) : first.AddsTo third :=
  ⟨after.signature.trans before.signature, after.truncated.trans before.truncated,
    after.refuted.trans before.refuted,
    fun printed reported => after.reports printed (before.reports printed reported)⟩

theorem Findings.addsTo_withAnswer {findings : Findings} {query : AnswerQuery}
    {printed : List String} (current : findings.answers = some query) :
    findings.AddsTo (findings.withAnswer query printed) := by
  refine ⟨rfl, rfl, rfl, ?_⟩
  rintro other ⟨found, isIt, mem⟩
  cases current.symm.trans isIt
  exact ⟨_, rfl, Sorted.mem_insert.mpr (.inr mem)⟩

/-- What an attempt reports: where answers are collected, the tuple of a refutation
that the filter lets through. -/
def Findings.Answered (filter : AnswerFilter) (collects : Bool) (signature : Signature)
    (attempt : Attempt) (findings : Findings) : Prop :=
  collects = true → attempt.isRefutation = true → ∀ tuple, attempt.tuple? = some tuple →
    filter.accepts tuple = true → findings.Reports (tuple.map signature.renderTerm)

/-- Taking an attempt reports the answer it gives. -/
theorem Findings.Tallies.takeAttempt {findings : Findings} {filter : AnswerFilter}
    {attempt : Attempt} {outcome : Outcome Findings} (tallies : findings.Tallies heading)
    (fits : ∀ tuple, attempt.tuple? = some tuple →
      ∀ entry ∈ heading, entry.1 = p → tuple.length = entry.2.length)
    (returned : (findings.takeAttempt filter p attempt).Returns outcome) :
    ∃ after, outcome = .going after ∧ after.Tallies heading ∧ findings.AddsTo after ∧
      after.Answered filter (collectsFor heading p) findings.signature attempt := by
  rcases Findings.takeAttempt_cases returned with ⟨rfl, none⟩ | ⟨query, tuple, gives, taken⟩
  · refine ⟨findings, rfl, tallies, .refl findings, fun collects isRefutation tuple isTuple
      accepted => ?_⟩
    rw [← Findings.collects_eq tallies.heading p, Findings.collects, Option.any_eq_true] at collects
    obtain ⟨query, current, onPredicate⟩ := collects
    exact (none query tuple
      ⟨current, of_decide_eq_true onPredicate, isRefutation, isTuple, accepted⟩).elim
  have isHeading := tallies.heading
  rw [gives.current] at isHeading
  have sameLength := fits tuple gives.isTuple query.heading (by rw [← isHeading]; rfl)
    gives.onPredicate
  rcases taken with ⟨-, rfl⟩ | ⟨different, -⟩
  · refine ⟨_, rfl, ⟨isHeading, ?_⟩, Findings.addsTo_withAnswer gives.current,
      fun _ _ other otherIsTuple _ => ?_⟩
    · rintro other ⟨⟩
      exact Sorted.isIncreasing_insert _ (tallies.increasing query gives.current)
    · cases gives.isTuple.symm.trans otherIsTuple
      exact ⟨_, rfl, Sorted.mem_insert.mpr (.inl rfl)⟩
  · exact absurd sameLength different

/-! ## Pairs -/

namespace Elimination

variable {state after : Elimination} {c d : Clause}

/-- A pair of clauses has been tried: the resolvents of their copies are where they
belong, and the answers that the copies give are reported. -/
def HasTried (base : Signature) (filter : AnswerFilter) (p : PredicateSymbol) (collects : Bool)
    (pair : Clause × Clause) (state : Elimination) : Prop :=
  ∃ left right extended, CopiedApart pair.1 pair.2 base left right extended ∧
    (∀ r ∈ Attempt.resolvents extended (left.attempts p right), state.Accounts p collects r) ∧
    ∀ attempt ∈ left.attempts p right, state.findings.Answered filter collects extended attempt

theorem GrowsTo.hasTried {filter : AnswerFilter} {collects : Bool} {pair : Clause × Clause}
    (grows : state.GrowsTo after) (tried : state.HasTried base filter p collects pair) :
    after.HasTried base filter p collects pair := by
  obtain ⟨left, right, extended, copied, accounts, answered⟩ := tried
  refine ⟨left, right, extended, copied, fun r mem => grows.accounts (accounts r mem), ?_⟩
  intro attempt mem isCollecting isRefutation tuple tupleFound accepted
  exact grows.reports _ (answered attempt mem isCollecting isRefutation tuple tupleFound accepted)

/-- An elimination that was cut short, with its table. -/
def CappedWith (heading : Option (PredicateSymbol × List String)) (halt : Halt)
    (state : Elimination) : Prop :=
  halt = .capped ∧ state.findings.Tallies heading ∧ state.findings.truncated = true

theorem advances_withFindings {findings : Findings} {signature : Signature}
    (adds : Findings.AddsTo { state.findings with signature := signature } findings) :
    Advances setup state { state with findings := findings } where
  settled := rfl
  fresh := rfl
  truncated := adds.truncated
  grows := ⟨fun refuted => adds.refuted.trans refuted, fun _ => id, fun _ _ => id, adds.reports⟩
  counted := .inl ⟨rfl, rfl⟩

/-- Taking a resolvent keeps the table of answers. -/
theorem tallies_withResolvent {collects : Bool} {left right r : Clause}
    (tallies : state.findings.Tallies heading) :
    (state.withResolvent p collects left right r).findings.Tallies heading := by
  obtain ⟨-, -, sameAnswers, -⟩ := @withResolvent_unchanged p collects r left right state
  constructor
  · rw [sameAnswers, tallies.heading]
  · rw [sameAnswers]
    exact tallies.increasing

/-- Taking a resolvent in a search for all answers. -/
theorem absorb_tallies {left right r : Clause} {outcome : Outcome Elimination}
    (all : setup.mode = .all) (tallies : state.findings.Tallies heading)
    (returned : (absorb setup p left right r state).Returns outcome) :
    outcome.Ends (fun after => after.findings.Tallies heading ∧ Advances setup state after ∧
      after.Accounts p (collectsFor heading p) r) (CappedWith heading) := by
  rcases absorb_cases (Findings.collects_eq tallies.heading p) returned with
    ⟨-, single, -⟩ | ⟨rfl, -⟩ | ⟨rfl, below⟩
  · cases all.symm.trans single
  · exact ⟨rfl, { tallies_withResolvent tallies with }, rfl⟩
  · exact ⟨tallies_withResolvent tallies, advances_withResolvent below, accounts_withResolvent⟩

/-- The tuple of an attempt on the answer predicate has a value for each variable. -/
theorem length_tuple {left right : Clause} {extended : Signature} {attempt : Attempt}
    (arity : ∀ entry ∈ heading, (base.predicateInfo entry.1).arity = entry.2.length)
    (gains : base.GainsVariables extended) (leftOver : left.IsOver extended)
    (mem : attempt ∈ left.attempts p right) (tuple : List Term)
    (found : attempt.tuple? = some tuple) (entry : PredicateSymbol × List String)
    (entryMem : entry ∈ heading) (isIt : entry.1 = p) : tuple.length = entry.2.length := by
  obtain ⟨a, b, place, otherPlace, aFound, -, onPredicate, -, rfl⟩ := Clause.mem_attempts.mp mem
  obtain ⟨σ, -, rfl⟩ := Option.map_eq_some_iff.mp found
  have sameInfo : extended.predicateInfo p = base.predicateInfo p := by
    rw [Signature.predicateInfo, Signature.predicateInfo, gains.predicates]
  have isArity := (leftOver _ (List.mem_of_getElem? aFound)).arity
  change a.args.length = (extended.predicateInfo a.predicate).arity at isArity
  rw [List.length_map, isArity, onPredicate, sameInfo, ← isIt, arity entry entryMem]

/-- Resolving two clauses in a search for all answers. -/
theorem resolve_hasTried (all : setup.mode = .all)
    (arity : ∀ entry ∈ heading, (base.predicateInfo entry.1).arity = entry.2.length)
    (proper : base.IsProper) (gains : base.GainsVariables state.findings.signature)
    (cOver : c.IsOver state.findings.signature) (dOver : d.IsOver state.findings.signature)
    (tallies : state.findings.Tallies heading) {outcome : Outcome Elimination}
    (returned : (resolve setup p c d state).Returns outcome) :
    outcome.Ends (fun after => after.findings.Tallies heading ∧ Advances setup state after ∧
      after.HasTried base setup.config.answerFilter p (collectsFor heading p) (c, d))
      (CappedWith heading) := by
  have properHere := gains.proper proper
  have apart := Clause.renameApart_spec cOver dOver properHere.hasCanonical
  have copies := @Clause.renameApart_isCopyOf c d _ properHere
  simp only [Elimination.resolve, returns_bind] at returned
  generalize (c.renameApart d state.findings.signature).1 = left at apart copies returned
  generalize (c.renameApart d state.findings.signature).2.1 = right at apart copies returned
  generalize (c.renameApart d state.findings.signature).2.2 = extended at apart returned
  have copied : CopiedApart c d base left right extended :=
    ⟨⟨gains.trans apart.gains, apart.hasCanonical, apart.leftOver, apart.rightOver,
      apart.leftVariant, apart.rightVariant, apart.leftVars, apart.rightVars⟩,
      apart.gains.proper properHere, copies.1, copies.2⟩
  have renamed : Findings.Tallies heading { state.findings with signature := extended } :=
    ⟨tallies.heading, tallies.increasing⟩
  obtain ⟨attempted, attemptsReturned, returned⟩ := returned
  -- First all attempts are made, which report the answers.
  have afterAttempts : attempted.Ends (fun findings => (findings.Tallies heading ∧
      Findings.AddsTo { state.findings with signature := extended } findings) ∧
      ∀ attempt ∈ left.attempts p right, findings.Answered setup.config.answerFilter
        (collectsFor heading p) extended attempt) fun _ _ => False := by
    refine forEach_gathers (fun attempt mem during outcome kept taken => ?_)
      ⟨renamed, .refl _⟩ attemptsReturned
    have fits := @length_tuple base heading p left right extended attempt arity copied.gains
      copied.leftOver mem
    obtain ⟨next, rfl, nextTallies, adds, answered⟩ := kept.1.takeAttempt fits taken
    rw [kept.2.signature] at answered
    refine ⟨⟨nextTallies, kept.2.trans adds⟩, answered, fun other earlier => ?_⟩
    intro collects isRefutation tuple tupleFound accepted
    exact adds.reports _ (earlier collects isRefutation tuple tupleFound accepted)
  cases attempted with
  | halted halt findings => exact afterAttempts.elim
  | going findings =>
      obtain ⟨⟨findingsTally, adds⟩, answered⟩ := afterAttempts
      have started : Advances setup state { state with findings := findings } :=
        advances_withFindings adds
      -- Then the resolvents are taken.
      have gathered : outcome.Ends (fun after => (after.findings.Tallies heading ∧
          Advances setup { state with findings := findings } after) ∧
          ∀ r ∈ Attempt.resolvents extended (left.attempts p right),
            after.Accounts p (collectsFor heading p) r) (CappedWith heading) := by
        refine forEach_gathers (fun r _ during outcome kept taken => ?_)
          ⟨findingsTally, .refl setup _⟩ returned
        refine (absorb_tallies all kept.1 taken).imp
          fun ⟨nextTallies, advances, accounts⟩ => ?_
        exact ⟨⟨nextTallies, kept.2.trans advances⟩, accounts,
          fun _ earlier => advances.grows.accounts earlier⟩
      refine gathered.imp fun ⟨⟨nextTallies, advances⟩, accounts⟩ =>
        ⟨nextTallies, started.trans advances, left, right, extended, copied, accounts, ?_⟩
      intro attempt mem isCollecting isRefutation tuple tupleFound accepted
      exact advances.grows.reports _
        (answered attempt mem isCollecting isRefutation tuple tupleFound accepted)

/-! ## All pairs -/

/-- The state of an elimination that keeps to a guarantee and has a table. -/
structure IsCollecting (guarantee : Guarantee) (base : Signature)
    (heading : Option (PredicateSymbol × List String)) (state : Elimination) : Prop where
  meets : state.Meets guarantee base heading
  tallies : state.findings.Tallies heading

/-- A search for all answers without limits tries the pairs of every elimination
that keeps to a guarantee, and is halted only at the cap. -/
theorem explores_of_maintained (unlimited : setup.config.limits = .unlimited)
    (all : setup.mode = .all)
    (arity : ∀ entry ∈ heading, (base.predicateInfo entry.1).arity = entry.2.length)
    (proper : base.IsProper)
    (maintained : guarantee.Maintained setup.config.answerFilter p (collectsFor heading p)) :
    Explores setup p (IsCollecting guarantee base heading)
      (HasTried base setup.config.answerFilter p (collectsFor heading p))
      (fun halt state => halt = .capped ∧ state.IsCollecting guarantee base heading ∧
        state.findings.truncated = true) where
  lasts grows tried := grows.hasTried tried
  nextRound collecting := ⟨collecting.meets.nextRound, collecting.tallies⟩
  step {pair state outcome} collecting leftMem rightMem returned := by
    have leftIn := collecting.meets.nextRound.settled pair.1 (.inl leftMem)
    have rightIn := collecting.meets.nextRound.settled pair.2 (.inr rightMem)
    have keeps := collecting.meets.tryPair maintained leftIn rightIn returned
    have resolved := @resolve_hasTried base heading p setup
      { state with tried := state.tried.push pair } pair.1 pair.2 all arity proper
      collecting.meets.findings.gains (maintained.bucketOver leftIn) (maintained.bucketOver rightIn)
      collecting.tallies outcome (resolve_of_tryPair unlimited returned)
    cases outcome with
    | going after =>
        obtain ⟨afterTallies, advances, tried⟩ := resolved
        exact ⟨⟨keeps, afterTallies⟩, advances_tried advances, tried⟩
    | halted halt after =>
        obtain ⟨isCapped, afterTallies, truncated⟩ := resolved
        exact ⟨isCapped, ⟨keeps.2, afterTallies⟩, truncated⟩

end Elimination

end Entailment.FirstOrder
