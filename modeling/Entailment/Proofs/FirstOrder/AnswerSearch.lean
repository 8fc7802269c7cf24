import Entailment.Proofs.FirstOrder.AnswerTies
import Entailment.Proofs.FirstOrder.RefutationSoundness

/-!
# What a search reports as answers

A search for answers has two phases.  Before the answer predicate is eliminated,
every clause is the goal or a consequence of the other clauses in which the
Skolem functions of the query are tied to answers.  The elimination of the answer
predicate meets the goal with those consequences, and each answer that it reports
is a consequence of one literal.  After it no clause mentions the answer
predicate, and nothing more is reported.

The predicates come in any order, the answer predicate may be among them several
times or not at all, and the search may end anywhere.
-/

namespace Entailment.FirstOrder

open Monitored

universe u

/-! ## Printing -/

@[simp]
theorem Signature.renderTerms_eq (signature : Signature) (ts : List Term) :
    signature.renderTerms ts = ts.map signature.renderTerm := by
  induction ts with
  | nil => rfl
  | cons t ts ih => rw [renderTerms, ih, List.map_cons]

/-- A term over a signature is printed in the same way over a grown one. -/
theorem Signature.GrowsTo.renderTerm {signature extended : Signature}
    (grows : signature.GrowsTo extended) {t : Term} (isOver : t.IsOver signature) :
    extended.renderTerm t = signature.renderTerm t := by
  induction isOver with
  | var bound => rw [Signature.renderTerm, Signature.renderTerm, grows.variableName bound]
  | app bound _ _ ih =>
      rw [Signature.renderTerm, Signature.renderTerm, grows.functionInfo bound,
        Signature.renderTerms_eq, Signature.renderTerms_eq, List.map_congr_left ih]

/-! ## What is promised -/

/-- An answer: it passes the filter, it mentions no function symbol numbered from
`first` on, and it follows from the rules. -/
structure IsAnswer (rules : Store) (answer : PredicateSymbol) (first : Nat)
    (filter : AnswerFilter) (terms : List Term) : Prop where
  accepted : filter.accepts terms = true
  functionsBelow : ∀ t ∈ terms, t.FunctionsBelow first
  holds : ∀ ⦃D : Type u⦄ (M : Model D), M.IsModelOf rules → ∀ ρ,
    Atom.Holds M ρ ⟨answer, terms⟩

namespace AnswerSearch

variable {signature extended : Signature} {c : Clause}

/-- A reported tuple is the printing of an answer. -/
def promise (rules : Store) (answer : PredicateSymbol) (first : Nat) (filter : AnswerFilter) :
    Promise where
  answer signature printed := ∃ terms, IsAnswer.{u} rules answer first filter terms ∧
    Atom.IsOver signature ⟨answer, terms⟩ ∧ printed = terms.map signature.renderTerm
  refuted := True

/-- A consequence of the rules in which the new functions are tied to answers. -/
structure Derived (rules : Store) (answer : PredicateSymbol) (first arity : Nat)
    (signature : Signature) (c : Clause) : Prop where
  isOver : c.IsOver signature
  follows : Store.Entails.{u} rules c
  tied : c.Tied answer first arity

/-- What a clause is before the answer predicate is eliminated. -/
def Before (rules : Store) (answer : PredicateSymbol) (first arity : Nat) (signature : Signature)
    (c : Clause) : Prop :=
  Derived.{u} rules answer first arity signature c ∨ c.IsOver signature ∧ c.IsGoal answer

/-- What a clause is after the answer predicate was eliminated. -/
def After (answer : PredicateSymbol) (signature : Signature) (c : Clause) : Prop :=
  c.IsOver signature ∧ c.mentions answer = false

variable {rules : Store} {answer p : PredicateSymbol} {first arity : Nat} {filter : AnswerFilter}

theorem promise_grows {printed : List String} (grows : signature.GrowsTo extended)
    (good : (promise.{u} rules answer first filter).answer signature printed) :
    (promise.{u} rules answer first filter).answer extended printed := by
  obtain ⟨terms, isAnswer, isOver, rfl⟩ := good
  refine ⟨terms, isAnswer, isOver.mono grows, ?_⟩
  exact List.map_congr_left fun t mem => (grows.renderTerm (isOver.isOver t mem)).symm

theorem Derived.mono (derived : Derived.{u} rules answer first arity signature c)
    (grows : signature.GrowsTo extended) : Derived.{u} rules answer first arity extended c :=
  ⟨derived.isOver.mono grows, derived.follows, derived.tied⟩

theorem Before.isOver (before : Before.{u} rules answer first arity signature c) :
    c.IsOver signature :=
  before.elim (fun derived => derived.isOver) (fun goal => goal.1)

theorem Before.mono (before : Before.{u} rules answer first arity signature c)
    (grows : signature.GrowsTo extended) : Before.{u} rules answer first arity extended c :=
  before.imp (fun derived => derived.mono grows) (fun goal => ⟨goal.1.mono grows, goal.2⟩)

theorem After.mono (after : After answer signature c) (grows : signature.GrowsTo extended) :
    After answer extended c :=
  ⟨after.1.mono grows, after.2⟩

/-! ## The three kinds of elimination -/

/-- Eliminating another predicate before the answer predicate. -/
def deducing (rules : Store) (answer : PredicateSymbol) (first arity : Nat)
    (filter : AnswerFilter) : Guarantee where
  toPromise := promise.{u} rules answer first filter
  bucket := Derived.{u} rules answer first arity
  kept := Before.{u} rules answer first arity

/-- Eliminating the answer predicate. -/
def collecting (rules : Store) (answer : PredicateSymbol) (first arity : Nat)
    (filter : AnswerFilter) : Guarantee where
  toPromise := promise.{u} rules answer first filter
  bucket := Before.{u} rules answer first arity
  kept := After answer

/-- Eliminating a predicate after the answer predicate. -/
def finishing (rules : Store) (answer : PredicateSymbol) (first : Nat) (filter : AnswerFilter) :
    Guarantee where
  toPromise := promise.{u} rules answer first filter
  bucket := After answer
  kept := After answer

/-- Resolvents of derived clauses are derived, and another predicate than the
answer predicate collects no answers. -/
theorem maintained_deducing (different : p ≠ answer) :
    (deducing.{u} rules answer first arity filter).Maintained filter p false where
  bucketGrows grows derived := derived.mono grows
  keptGrows grows before := before.mono grows
  answerGrows := promise_grows
  bucketOver derived := derived.isOver
  resolvent := by
    intro signature extended c d left right r apart cDerived dDerived mem
    have sound := RenamedApart.resolvent_spec.{u} apart mem
    have derived : Derived.{u} rules answer first arity extended r := by
      constructor
      · exact sound.1
      · intro D M isModel
        exact sound.2 M (cDerived.follows M isModel) (dDerived.follows M isModel)
      · exact apart.tied_resolvent mem cDerived.tied dDerived.tied different
    cases r.fate p false with
    | refutation => trivial
    | tautology => trivial
    | disjunctiveAnswer => trivial
    | returned => exact derived
    | kept => exact .inl derived
  answered _ _ _ collects := Bool.noConfusion collects

/-- A derived clause has no negative answer literal. -/
theorem Before.isGoal_of_negative {a : Atom}
    (before : Before.{u} rules answer first arity signature c) (mem : .negative a ∈ c.literals)
    (onAnswer : a.predicate = answer) : c.IsGoal answer := by
  rcases before with derived | goal
  · have isPositive := derived.tied.positive _ mem onAnswer
    cases isPositive
  · exact goal.2

/-- A goal has no positive literal. -/
theorem Before.derived_of_positive {a : Atom}
    (before : Before.{u} rules answer first arity signature c) (mem : .positive a ∈ c.literals) :
    Derived.{u} rules answer first arity signature c := by
  rcases before with derived | goal
  · exact derived
  · obtain ⟨vars, isNegative⟩ := goal.2 _ mem
    cases isNegative

/-- What the elimination of the answer predicate keeps does not mention it, and
what it reports are answers. -/
theorem maintained_collecting :
    (collecting.{u} rules answer first arity filter).Maintained filter answer true where
  bucketGrows grows before := before.mono grows
  keptGrows grows after := after.mono grows
  answerGrows := promise_grows
  bucketOver before := before.isOver
  resolvent := by
    intro signature extended c d left right r apart _ _ mem
    have isOver := (RenamedApart.resolvent_spec.{u} apart mem).1
    have fateSpec := r.fate_spec answer true
    cases fate : r.fate answer true with
    | refutation => trivial
    | tautology => trivial
    | disjunctiveAnswer => trivial
    | returned =>
        rw [fate] at fateSpec
        cases fateSpec.1
    | kept =>
        rw [fate] at fateSpec
        exact ⟨isOver, fateSpec.1⟩
  answered := by
    intro signature extended c d left right attempt terms apart cBefore dBefore _ mem isRefutation
      given accepted
    obtain ⟨a, b, place, otherPlace, found, otherFound, -, bPredicate, -⟩ :=
      Clause.mem_attempts.mp mem
    -- The literals that are resolved tell which clause is the goal.
    have derived : Derived.{u} rules answer first arity signature c := by
      obtain ⟨⟨atom, sign⟩, originalMem, -, sameSign⟩ :=
        apart.leftVariant.exists_literal (List.mem_of_getElem? found)
      obtain rfl : sign = .positive := sameSign
      exact cBefore.derived_of_positive originalMem
    have isGoal : d.IsGoal answer := by
      obtain ⟨⟨atom, sign⟩, originalMem, samePredicate, sameSign⟩ :=
        apart.rightVariant.exists_literal (List.mem_of_getElem? otherFound)
      obtain rfl : sign = .negative := sameSign
      exact dBefore.isGoal_of_negative originalMem (samePredicate.trans bPredicate)
    obtain ⟨⟨σ, only⟩, isOver, functionsBelow⟩ :=
      Attempt.answer_of_isRefutation mem apart.leftOver apart.rightOver
        (derived.tied.of_isVariantOf apart.leftVariant) (isGoal.of_isVariantOf apart.rightVariant)
        isRefutation given
    refine ⟨terms, ⟨accepted, functionsBelow, fun D M isModel ρ => ?_⟩, isOver, rfl⟩
    have satisfied : M.Satisfies (left.apply σ) :=
      ((derived.follows M isModel).of_isVariantOf apart.leftVariant).apply σ
    obtain ⟨literal, literalMem, holds⟩ := satisfied ρ
    rw [(only literal).mp literalMem] at holds
    exact holds

/-- Clauses that do not mention the answer predicate have resolvents that do not,
and no answers. -/
theorem maintained_finishing {collects : Bool} (isIt : collects = true → p = answer) :
    (finishing.{u} rules answer first filter).Maintained filter p collects where
  bucketGrows grows after := after.mono grows
  keptGrows grows after := after.mono grows
  answerGrows := promise_grows
  bucketOver after := after.1
  resolvent := by
    intro signature extended c d left right r apart cAfter dAfter mem
    have after : After answer extended r := by
      refine ⟨(RenamedApart.resolvent_spec.{u} apart mem).1,
        Bool.eq_false_iff.mpr fun mentioned => ?_⟩
      rcases Attempt.mentions_of_mem_resolvents apart.leftVariant apart.rightVariant mem
        mentioned with
        inLeft | inRight
      · cases cAfter.2.symm.trans inLeft
      · cases dAfter.2.symm.trans inRight
    cases r.fate p collects with
    | refutation => trivial
    | tautology => trivial
    | disjunctiveAnswer => trivial
    | returned => exact after
    | kept => exact after
  answered := by
    intro signature extended c d left right attempt terms apart cAfter _ isCollecting mem
    obtain ⟨a, b, place, otherPlace, found, -, aPredicate, -, -⟩ := Clause.mem_attempts.mp mem
    obtain ⟨original, originalMem, samePredicate, -⟩ :=
      apart.leftVariant.exists_literal (List.mem_of_getElem? found)
    have onAnswer := (samePredicate.trans aPredicate).trans (isIt isCollecting)
    exact absurd onAnswer (Clause.not_mentions_iff.mp cAfter.2 original originalMem)

/-! ## The whole search -/

/-- A search before or after the elimination of the answer predicate. -/
def Meets (rules : Store) (answer : PredicateSymbol) (first arity : Nat) (filter : AnswerFilter)
    (base : Signature) (names : List String) (search : Search) : Prop :=
  search.Meets (Before.{u} rules answer first arity) (promise.{u} rules answer first filter) base
      (some (answer, names)) ∨
    search.Meets (After answer) (promise.{u} rules answer first filter) base
      (some (answer, names))

variable {base : Signature} {names : List String}

theorem Meets.findings {search : Search}
    (meets : Meets.{u} rules answer first arity filter base names search) :
    search.findings.Meets (promise.{u} rules answer first filter) base (some (answer, names)) :=
  meets.elim (fun before => before.findings) (fun after => after.findings)

theorem collectsFor_some : collectsFor (some (answer, names)) p = decide (answer = p) := rfl

/-- Eliminating one predicate. -/
theorem Meets.eliminate {setup : Setup} {search : Search} {outcome : Outcome Search}
    (meets : Meets.{u} rules answer first arity setup.config.answerFilter base names search)
    (returned : (Search.eliminate setup p search).Returns outcome) :
    outcome.Ends (Meets.{u} rules answer first arity setup.config.answerFilter base names)
      (Search.HaltedWith (promise.{u} rules answer first setup.config.answerFilter) base
        (some (answer, names))) := by
  rcases meets with before | after
  · by_cases isAnswer : p = answer
    · subst isAnswer
      have maintained : (collecting.{u} rules p first arity setup.config.answerFilter).Maintained
          setup.config.answerFilter p (collectsFor (some (p, names)) p) := by
        rw [collectsFor_some, decide_eq_true rfl]
        exact maintained_collecting
      have ends := Search.Meets.eliminate maintained (fun good _ => good)
        (fun good absent => ⟨good.isOver, absent⟩) before returned
      exact ends.imp .inr
    · have maintained : (deducing.{u} rules answer first arity
          setup.config.answerFilter).Maintained setup.config.answerFilter p
          (collectsFor (some (answer, names)) p) := by
        rw [collectsFor_some, decide_eq_false (Ne.symm isAnswer)]
        exact maintained_deducing isAnswer
      -- The goal does not mention the predicate, so that it stays where it is.
      have enters {signature : Signature} {c : Clause}
          (good : Before.{u} rules answer first arity signature c)
          (mentioned : c.mentions p = true) :
          Derived.{u} rules answer first arity signature c := by
        refine good.resolve_right fun goal => ?_
        rw [goal.2.not_mentions isAnswer] at mentioned
        cases mentioned
      have ends := Search.Meets.eliminate maintained enters (fun good _ => good) before returned
      exact ends.imp .inl
  · have maintained : (finishing.{u} rules answer first setup.config.answerFilter).Maintained
        setup.config.answerFilter p (collectsFor (some (answer, names)) p) :=
      maintained_finishing fun collects => (of_decide_eq_true collects).symm
    have ends := Search.Meets.eliminate maintained (fun good _ => good) (fun good _ => good) after
      returned
    exact ends.imp .inr

end AnswerSearch

/-- The result of a search has the answers that were found. -/
theorem Search.answers_of_result {outcome : Outcome Search} {refutation : Refutation}
    (isResult : Search.result outcome = .ok refutation) :
    refutation.answers = outcome.state.findings.answers.map AnswerQuery.answers := by
  cases outcome with
  | going search =>
      cases isResult
      rfl
  | halted halt search =>
      cases halt with
      | failed error => cases isResult
      | refuted | capped | gaveUp =>
          cases isResult
          rfl

/-- The answers of a refutation of rules and a goal are answers. -/
theorem Store.refute_answers {setup : Setup} {order : EliminationOrder} {rules store : Store}
    {answer : PredicateSymbol} {first arity : Nat} {names : List String}
    {signature extended : Signature} {refutation : Refutation} {answers : Answers}
    (consistent : store.Consistent) (has : signature.HasCanonical)
    (clauses : ∀ c ∈ store, AnswerSearch.Before.{u} rules answer first arity signature c)
    (returned : (store.refute setup order (some ⟨answer, .start names⟩) signature).Returns
      (.ok refutation, extended))
    (answered : refutation.answers = some answers) :
    signature.GainsVariables extended ∧ answers.vars = names ∧
      ∀ tuple ∈ answers.tuples,
        (AnswerSearch.promise.{u} rules answer first setup.config.answerFilter).answer extended
          tuple := by
  obtain ⟨outcome, outcomeReturned, ended⟩ := (returns_bind ..).mp returned
  obtain ⟨isResult, rfl⟩ := Prod.mk.inj ended
  have started : (Search.start setup store (some ⟨answer, .start names⟩) signature).findings.Meets
      (AnswerSearch.promise.{u} rules answer first setup.config.answerFilter) signature
      (some (answer, names)) := by
    refine ⟨.refl signature, has, rfl, fun query isIt tuple mem => ?_, fun _ => trivial⟩
    cases isIt
    cases mem
  have ends : outcome.Ends
      (AnswerSearch.Meets.{u} rules answer first arity setup.config.answerFilter signature names)
      (Search.HaltedWith (AnswerSearch.promise.{u} rules answer first setup.config.answerFilter)
        signature (some (answer, names))) := by
    refine Search.run_ends (fun p search outcome meets eliminated => meets.eliminate eliminated)
      (.inl ⟨consistent, started, clauses⟩) (fun _ => ?_) outcomeReturned
    have findings : Findings.Meets
        (AnswerSearch.promise.{u} rules answer first setup.config.answerFilter) signature
        (some (answer, names))
        { (Search.start setup store (some ⟨answer, .start names⟩) signature).findings with
          refuted := true } :=
      ⟨started.gains, started.hasCanonical, started.heading, started.answers, fun _ => trivial⟩
    exact ⟨.inl ⟨consistent, findings, clauses⟩, fun _ => trivial, by simp, findings⟩
  have findings : outcome.state.findings.Meets
      (AnswerSearch.promise.{u} rules answer first setup.config.answerFilter) signature
      (some (answer, names)) := by
    cases outcome with
    | going search => exact ends.findings
    | halted halt search => exact ends.2.2
  obtain ⟨query, current, rfl⟩ : ∃ query, outcome.state.findings.answers = some query ∧
      query.answers = answers := by
    have found := Search.answers_of_result isResult
    rw [answered] at found
    exact Option.map_eq_some_iff.mp found.symm
  have heading := findings.heading
  rw [current] at heading
  exact ⟨findings.gains, (Prod.mk.inj (Option.some.inj heading)).2, fun tuple mem =>
    findings.answers query current tuple mem⟩

end Entailment.FirstOrder
