import Entailment.Proofs.FirstOrder.AnswerTuples
import Entailment.Proofs.FirstOrder.RenumberedSearch
import Entailment.Proofs.FirstOrder.UnsatisfiableStores
import Entailment.Proofs.Runs

/-!
# Reporting does not influence a search

The filter for answers and the recording of proofs say what a search reports.  Two searches without
limits that differ in these only go through the same steps: at any time they have the same clauses,
have tried the same pairs and have counted the same.  The recorded proofs differ, and so do the
tables of answers, but both tables come from the same tuples of terms: those of the pairs that were
tried, each through its own filter.
-/

namespace Entailment.FirstOrder

open Monitored (returns_bind exists_run_ok_with)

/-- The setup with another choice of what is reported, for a search that starts at another time. -/
def Setup.reporting (filter : AnswerFilter) (trackProofs : Bool) (start : Duration)
    (setup : Setup) : Setup :=
  { setup with
    config := { setup.config with answerFilter := filter, trackProofs := trackProofs }
    start := start }

variable {base : Signature} {query : Option AnswerQuery} {filter other : AnswerFilter}
  {tried : List TriedPair} {setup : Setup}

/-! ## Tables -/

/-- The tuples of terms that some pairs give for a query. -/
def answersIn (query : Option AnswerQuery) (signature : Signature) (tried : List TriedPair) :
    List (List Term) :=
  tried.flatMap fun entry => entry.2.1.answerTuples query entry.1 entry.2.2 signature

/-- A table that has what the tuples of the tried pairs give under a filter. -/
structure Reports (base : Signature) (query : Option AnswerQuery) (filter : AnswerFilter)
    (tried : List TriedPair) (table : Table) : Prop where
  follows : base.Follows .same table.1
  hasCanonical : table.1.HasCanonical
  known : table.1.Knows (answersIn query base tried)
  answers : table.2 = query.map (·.reported filter table.1 (answersIn query base tried))

theorem Reports.collects {findings : Findings}
    (reports : Reports base query filter tried findings.table) (p : PredicateSymbol) :
    findings.collects p = query.any fun asked => decide (asked.predicate = p) := by
  have answers : findings.answers = _ := reports.answers
  rw [Findings.collects, answers, Option.any_map]
  rfl

/-- Looking at the attempts to resolve two clauses.  The table refuses no tuple, and what is added
to it comes from the tuples that the two clauses give. -/
theorem Reports.lookAt {p : PredicateSymbol} {c d : Clause} {state : Elimination}
    {ended : Outcome Findings} (fits : c.Fits query)
    (reports : Reports base query setup.config.answerFilter tried state.findings.table)
    (returned : (Elimination.lookAt setup p (c, d) state).Returns ended) :
    ∃ answers, ended = .going { state.findings with
        signature := (c.renameApart d state.findings.signature).2.2, answers := answers } ∧
      Reports base query setup.config.answerFilter (tried ++ [(p, c, d)])
        ((c.renameApart d state.findings.signature).2.2, answers) := by
  obtain ⟨follows, has, known, answers⟩ := reports
  have gains := c.gainsVariables_renameApart d state.findings.signature
  have fitting (asked : AnswerQuery) (isAsked : asked ∈ query) (onPredicate : asked.predicate = p)
      (attempt : Attempt) (mem : attempt ∈ (c.renameApart d state.findings.signature).1.attempts p
        (c.renameApart d state.findings.signature).2.1) :
      attempt.positive.args.length = asked.answers.arity := by
    obtain ⟨a, inClause, onIt, sameLength⟩ := Elimination.exists_literal_of_attempt mem
    rw [← sameLength]
    exact fits asked isAsked a inClause (onIt.trans onPredicate.symm)
  have reprinted : state.findings.answers = query.map (·.reported setup.config.answerFilter
      (c.renameApart d state.findings.signature).2.2 (answersIn query base tried)) :=
    answers.trans (congrArg (Option.map · query)
      (funext fun asked => (asked.reported_gain gains known _).symm))
  obtain rfl := Findings.eq_of_takeAttempts fitting reprinted returned
  have allTuples : answersIn query base (tried ++ [(p, c, d)]) =
      answersIn query base tried ++ c.answerTuples query p d state.findings.signature := by
    have sameTuples : c.answerTuples query p d state.findings.signature =
        c.answerTuples query p d base := follows.answerTuples query p c d
    simp [answersIn, sameTuples]
  refine ⟨_, rfl, fun index => ?_, gains.hasCanonical has, ?_, by rw [allTuples]; rfl⟩
  · rw [← follows index]
    exact c.canonicalAt_renameApart d _ index
  · rw [allTuples]
    intro tuple mem
    rcases List.mem_append.mp mem with old | isNew
    · exact gains.knows known tuple old
    · exact c.knows_answerTuples has query p d tuple isNew

/-- Two tables with the same signature that come from the same tuples, each through its own
filter. -/
structure ReportAlike (base : Signature) (query : Option AnswerQuery) (filter other : AnswerFilter)
    (tried : List TriedPair) (table others : Table) : Prop where
  sameSignature : others.1 = table.1
  first : Reports base query filter tried table
  second : Reports base query other tried others

/-- Setups without limits that differ in what is reported only correspond, as long as the clauses
fit the query. -/
theorem corresponds_reporting (unlimited : setup.config.limits = .unlimited) (trackProofs : Bool)
    (start : Duration) :
    Corresponds .same setup (setup.reporting filter trackProofs start) (Clause.Fits query)
      (ReportAlike base query setup.config.answerFilter filter) where
  mode := rfl
  maxResolutions := rfl
  unlimited := unlimited
  otherUnlimited := unlimited
  resolvent leftFits rightFits mem := (leftFits.apply _).resolvent (rightFits.apply _) mem
  collects alike p := (alike.second.collects p).trans (alike.first.collects p).symm
  looks {p c d tried state others} fits renumbers alike ended otherEnded returned
      otherReturned := by
    have sameSignature : others.findings.signature = state.findings.signature :=
      alike.sameSignature
    rw [c.renumber_same, d.renumber_same] at otherReturned
    obtain ⟨answers, rfl, first⟩ := alike.first.lookAt fits returned
    obtain ⟨otherAnswers, rfl, second⟩ :=
      @Reports.lookAt _ _ _ (setup.reporting filter trackProofs start) p c d others otherEnded fits
        alike.second otherReturned
    refine ⟨_, _, rfl, rfl, { renumbers with signature := ?_ }, ?_, first, second⟩
    · simp only [sameSignature]
      exact fun _ => rfl
    · simp only [Findings.table, sameSignature]

/-! ## What is reported -/

/-- A query without answers that has a variable for each argument of its predicate in the positive
literals of a store. -/
structure AnswerQuery.IsNewFor (store : Store) (asked : AnswerQuery) : Prop where
  noAnswers : asked.answers.tuples = []
  arity : ∀ c ∈ store, ∀ a, .positive a ∈ c.literals → a.predicate = asked.predicate →
    a.args.length = asked.answers.arity

/-- The table of answers to a query that tuples of terms give under a filter: it has the variables
of the query and lists, in order, the texts of the tuples that the filter is to let through. -/
structure AnswerQuery.IsAnsweredBy (filter : AnswerFilter) (signature : Signature)
    (found : List (List Term)) (asked : AnswerQuery) (answers : Answers) : Prop where
  vars : answers.vars = asked.answers.vars
  increasing : Sorted.IsIncreasing answers.tuples
  mem_iff : ∀ printed, printed ∈ answers.tuples ↔
    ∃ tuple ∈ found, filter.Admits tuple ∧ tuple.map signature.renderTerm = printed

theorem AnswerQuery.isAnsweredBy_reported (filter : AnswerFilter) (signature : Signature)
    (found : List (List Term)) (asked : AnswerQuery) :
    asked.IsAnsweredBy filter signature found (asked.reported filter signature found).answers where
  vars := rfl
  increasing := Sorted.isIncreasing_ofList _
  mem_iff printed := by
    simp only [reported, Sorted.mem_ofList, List.mem_map, List.mem_filter,
      AnswerFilter.accepts_iff, and_assoc]

theorem AnswerQuery.IsNewFor.reported_nil {store : Store} {asked : AnswerQuery}
    (isNew : asked.IsNewFor store) (filter : AnswerFilter) (signature : Signature) :
    asked.reported filter signature [] = asked := by
  obtain ⟨predicate, vars, tuples⟩ := asked
  obtain rfl : tuples = [] := isNew.noAnswers
  simp [reported, Sorted.ofList, Sorted.dropRepeats]

/-- Two searches before their first elimination. -/
theorem Search.inStep_start {store : Store} {signature : Signature} (indexed : store.IsIndexed)
    (has : signature.HasCanonical) (isNew : ∀ asked ∈ query, asked.IsNewFor store)
    (filter other : AnswerFilter) (setup otherSetup : Setup) :
    (Search.start setup store query signature).InStep .same (Clause.Fits query)
      (ReportAlike signature query filter other) []
      (Search.start otherSetup store query signature) where
  store := ⟨indexed, indexed,
    (List.map_id' _).symm.trans (List.map_congr_left fun c _ => c.renumber_same.symm)⟩
  findings := ⟨fun _ => rfl, rfl, rfl, rfl⟩
  tables := by
    have reports (filter : AnswerFilter) :
        Reports signature query filter [] (signature, query) := by
      refine ⟨fun _ => rfl, has, by simp [Signature.Knows, answersIn], ?_⟩
      cases query with
      | none => rfl
      | some asked => exact congrArg some ((isNew asked rfl).reported_nil filter signature).symm
    exact ⟨rfl, reports filter, reports other⟩
  good c mem asked isAsked := (isNew asked isAsked).arity c mem

theorem Reports.isAnsweredBy {table : Table} (reports : Reports base query filter tried table) :
    Option.Rel (AnswerQuery.IsAnsweredBy filter table.1 (answersIn query base tried)) query
      (table.2.map AnswerQuery.answers) := by
  rw [reports.answers]
  cases query with
  | none => exact .none
  | some asked => exact .some (asked.isAnsweredBy_reported filter _ _)

/-- Two searches in step end with the same status. -/
theorem Search.exists_status_of_pairs {ρ : Renumbering} {good : Clause → Prop}
    {tables : List TriedPair → Table → Table → Prop} {outcome otherOutcome : Outcome Search}
    (pairs : outcome.Pairs (InStep ρ good tables tried) otherOutcome) :
    ∃ status, Search.result outcome = .ok (outcome.state.finish status) ∧
      Search.result otherOutcome = .ok (otherOutcome.state.finish status) ∧
      outcome.state.InStep ρ good tables tried otherOutcome.state := by
  cases pairs with
  | going inStep =>
      refine ⟨_, rfl, ?_, inStep⟩
      simp only [Search.result, inStep.findings.refuted, Outcome.state]
  | @halted halt _ _ regular inStep =>
      cases halt with
      | refuted | capped | gaveUp => exact ⟨_, rfl, rfl, inStep⟩
      | failed => exact regular.elim

/-- What is reported does not influence a search without limits: for every store that can be built,
every order, mode and cap, and every query that is new for the store, if there is one.  Whatever
filter is chosen for the answers instead, whether proofs are recorded or not, and whenever the
search starts, it ends with a result of the same status, the same number of resolvents and the same
note on whether it was cut short, and it leaves the same signature.

Behind the answers of both searches are the same tuples of terms, those that the eliminations on the
predicate of the query gave.  With each filter the answers are the texts of exactly those tuples
that it is to let through: all of them, those without variables, or those that consist of
constants. -/
theorem Store.refute_ignores_reporting {setup : Setup}
    (unlimited : setup.config.limits = .unlimited) (filter : AnswerFilter) (trackProofs : Bool)
    (start : Duration) (operations : List Store.Operation) (order : EliminationOrder)
    {query : Option AnswerQuery} {signature : Signature} (built : signature.Built)
    (isNew : ∀ asked ∈ query, asked.IsNewFor (Store.empty.performAll operations)) :
    let store := Store.empty.performAll operations
    (store.refute setup order query signature).Always fun result =>
      (store.refute (setup.reporting filter trackProofs start) order query signature).Always
        fun other => ∃ refutation report extended,
          result = (.ok refutation, extended) ∧ other = (.ok report, extended) ∧
          report.status = refutation.status ∧ report.generated = refutation.generated ∧
          report.truncated = refutation.truncated ∧
          ∃ steps outcome,
            Search.Runs setup order (.start setup store query signature) steps outcome ∧
            Search.result outcome = .ok refutation ∧
            let found := answersIn query signature (steps.flatMap Search.Step.triedPairs)
            Option.Rel (AnswerQuery.IsAnsweredBy setup.config.answerFilter extended found) query
              refutation.answers ∧
            Option.Rel (AnswerQuery.IsAnsweredBy filter extended found) query report.answers := by
  intro store
  refine (Monitored.always_iff _).mpr fun result returned =>
    (Monitored.always_iff _).mpr fun other otherReturned => ?_
  obtain ⟨outcome, outcomeReturned, ended⟩ := (returns_bind ..).mp returned
  obtain ⟨otherOutcome, otherOutcomeReturned, otherEnded⟩ := (returns_bind ..).mp otherReturned
  cases ended
  cases otherEnded
  have started := Search.inStep_start (isIndexed_performAll operations) built.isProper.hasCanonical
    isNew setup.config.answerFilter filter setup (setup.reporting filter trackProofs start)
  obtain ⟨steps, runs, pairs⟩ := started.run (corresponds_reporting unlimited trackProofs start)
    (List.map_id _).symm outcome otherOutcome outcomeReturned otherOutcomeReturned
  obtain ⟨status, ends, otherEnds, inStep⟩ := Search.exists_status_of_pairs pairs
  obtain ⟨-, -, truncated, generated⟩ := inStep.findings
  obtain ⟨sameSignature, reports, otherReports⟩ := inStep.tables
  have otherAnswered := otherReports.isAnsweredBy
  rw [sameSignature] at otherAnswered
  exact ⟨outcome.state.finish status, otherOutcome.state.finish status, _, Prod.ext ends rfl,
    Prod.ext otherEnds sameSignature, rfl, generated, truncated, steps, outcome, runs, ends,
    reports.isAnsweredBy, otherAnswered⟩

/-- The clauses `p(a)`, `p(f(a))`, `p(f(x))` and `¬p(x)`. -/
def successorFacts : List Store.Operation :=
  [.insert (.ofList [.positive ⟨⟨0⟩, [.app ⟨0⟩ []]⟩]),
   .insert (.ofList [.positive ⟨⟨0⟩, [.app ⟨1⟩ [.app ⟨0⟩ []]]⟩]),
   .insert (.ofList [.positive ⟨⟨0⟩, [.app ⟨1⟩ [.var ⟨0⟩]]⟩]),
   .insert (.ofList [.negative ⟨⟨0⟩, [.var ⟨0⟩]⟩])]

/-- For which `y` does `p(y)` hold? -/
def successorQuery : AnswerQuery := ⟨⟨0⟩, .start ["y"]⟩

/-- The search for all answers to the query on successors. -/
def askSuccessors (config : Config) : Monitored Event (Except Error Refutation × Signature) :=
  (Store.empty.performAll successorFacts).refute ⟨config, .all, .zero⟩ (.fixed [⟨0⟩])
    (some successorQuery) .successors

theorem isNewFor_successorQuery :
    successorQuery.IsNewFor (Store.empty.performAll successorFacts) := by
  have clauses : (Store.empty.performAll successorFacts).clauses =
      [⟨[.positive ⟨⟨0⟩, [.app ⟨0⟩ []]⟩]⟩, ⟨[.positive ⟨⟨0⟩, [.app ⟨1⟩ [.app ⟨0⟩ []]]⟩]⟩,
       ⟨[.positive ⟨⟨0⟩, [.app ⟨1⟩ [.var ⟨0⟩]]⟩]⟩, ⟨[.negative ⟨⟨0⟩, [.var ⟨0⟩]⟩]⟩] := by
    cbv
  refine ⟨rfl, fun c mem a literalMem _ => ?_⟩
  rw [← Store.mem_clauses_iff, clauses] at mem
  simp only [List.mem_cons, List.not_mem_nil, or_false] at mem
  rcases mem with rfl | rfl | rfl | rfl <;> cases List.mem_singleton.mp literalMem <;> rfl

/-- Of the three answers to the query on successors, two have no variables.  Whether proofs are
recorded makes no difference either. -/
theorem Store.refute_ignores_reporting_successors :
    (⟨100, .any, false, .unlimited⟩ : Config).limits = .unlimited ∧ Signature.successors.Built ∧
      successorQuery.IsNewFor (Store.empty.performAll successorFacts) ∧
      ∃ refutation report extended,
        (askSuccessors ⟨100, .any, false, .unlimited⟩).Returns (.ok refutation, extended) ∧
        (askSuccessors ⟨100, .ground, true, .unlimited⟩).Returns (.ok report, extended) ∧
        refutation.answers = some ⟨["y"], [["a"], ["f(?_1)"], ["f(a)"]]⟩ ∧
        report.answers = some ⟨["y"], [["a"], ["f(a)"]]⟩ ∧
        report.status = refutation.status ∧ report.generated = refutation.generated := by
  have built : Signature.successors.Built :=
    ((((Signature.Built.empty.addVariable _).internFunction _ _).internFunction _ _).internPredicate
      _ _).internPredicate _ _
  have run : ((askSuccessors ⟨100, .any, false, .unlimited⟩).run .zero none).1.1.toOption.map
      Refutation.answers = some (some ⟨["y"], [["a"], ["f(?_1)"], ["f(a)"]]⟩) := by
    cbv
  have otherRun : ((askSuccessors ⟨100, .ground, true, .unlimited⟩).run .zero
      none).1.1.toOption.map Refutation.answers = some (some ⟨["y"], [["a"], ["f(a)"]]⟩) := by
    cbv
  obtain ⟨refutation, _, returned, answers⟩ := exists_run_ok_with _ run
  obtain ⟨report, _, otherReturned, otherAnswers⟩ := exists_run_ok_with _ otherRun
  obtain ⟨-, always⟩ := @Store.refute_ignores_reporting
    ⟨⟨100, .any, false, .unlimited⟩, .all, .zero⟩ rfl .ground true .zero successorFacts
    (.fixed [⟨0⟩]) (some successorQuery) .successors built
    fun _ isAsked => Option.some.inj isAsked ▸ isNewFor_successorQuery
  obtain ⟨-, both⟩ := always _ returned
  obtain ⟨_, _, _, ⟨⟩, ⟨⟩, status, generated, -⟩ := both _ otherReturned
  exact ⟨rfl, built, isNewFor_successorQuery, refutation, report, _, returned, otherReturned,
    answers, otherAnswers, status, generated⟩

end Entailment.FirstOrder
