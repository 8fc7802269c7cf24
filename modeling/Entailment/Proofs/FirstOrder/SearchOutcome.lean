import Entailment.Proofs.FirstOrder.ExhaustiveElimination
import Entailment.Proofs.FirstOrder.RefutationSoundness

/-!
# A search ends with a result

A search fails when the store does not have a clause that its index lists, or when
an answer does not have a value for every variable of the query.  Neither happens:
the store stays consistent from one elimination to the next, and the literals on
the predicate that collects answers keep its arity.

This is about every search: with limits or without, for one refutation or for all
answers, cut short or not.
-/

namespace Entailment.FirstOrder

open Monitored (returns_bind)

variable {guarantee : Guarantee} {base : Signature}
  {heading : Option (PredicateSymbol × List String)} {p : PredicateSymbol} {setup : Setup}

/-- The predicate that collects answers takes a value for each variable. -/
def Signature.Fits (signature : Signature) (heading : Option (PredicateSymbol × List String)) :
    Prop :=
  ∀ entry ∈ heading, (signature.predicateInfo entry.1).arity = entry.2.length

theorem Signature.Fits.gain {signature extended : Signature} (fits : signature.Fits heading)
    (gains : signature.GainsVariables extended) : extended.Fits heading := by
  intro entry mem
  rw [Signature.predicateInfo, gains.predicates]
  exact fits entry mem

namespace Elimination

variable {state : Elimination} {c d : Clause} {outcome : Outcome Elimination}

/-- Taking a resolvent keeps the table of answers and is no failure. -/
theorem absorb_isRegular {left right r : Clause} (tallies : state.findings.Tallies heading)
    (returned : (absorb setup p left right r state).Returns outcome) :
    outcome.Keeps (fun after => after.findings.Tallies heading) Halt.IsRegular := by
  have placed : Findings.Tallies heading
      (state.withResolvent p (collectsFor heading p) left right r).findings :=
    tallies_withResolvent tallies
  rcases absorb_cases (Findings.collects_eq tallies.heading p) returned with
    ⟨rfl, -⟩ | ⟨rfl, -⟩ | ⟨rfl, -⟩
  · exact ⟨trivial, placed⟩
  · exact ⟨trivial, { placed with }⟩
  · exact placed

/-- Resolving two clauses over the signature of the moment is no failure. -/
theorem resolve_isRegular (fits : state.findings.signature.Fits heading)
    (has : state.findings.signature.HasCanonical)
    (cOver : c.IsOver state.findings.signature) (dOver : d.IsOver state.findings.signature)
    (tallies : state.findings.Tallies heading)
    (returned : (resolve setup p c d state).Returns outcome) :
    outcome.Keeps (fun after => after.findings.Tallies heading) Halt.IsRegular := by
  have apart := Clause.renameApart_spec cOver dOver has
  refine resolve_ends (Findings.Tallies heading) rfl
    (fun attempt mem during outcome kept taken => ?_) ⟨tallies.heading, tallies.increasing⟩
    (fun _ kept => kept) (fun r _ during outcome kept taken => absorb_isRegular kept taken) returned
  obtain ⟨next, rfl, nextTallies, -⟩ :=
    kept.takeAttempt (length_tuple fits apart.gains apart.leftOver mem) taken
  exact nextTallies

/-- An elimination keeps to the guarantee and to its table, and is no failure. -/
theorem preserves_isCollecting
    (maintained : guarantee.Maintained setup.config.answerFilter p (collectsFor heading p))
    (fits : base.Fits heading) :
    Preserves setup p (IsCollecting guarantee base heading)
      (fun findings => guarantee.bucket findings.signature)
      (fun findings after => findings.signature.GainsVariables after.signature)
      Halt.IsRegular where
  refl _ := .refl _
  trans := .trans
  mono gains := maintained.bucketGrows gains.grows
  clauses collecting := collecting.meets.nextRound.settled
  nextRound collecting := ⟨collecting.meets.nextRound, collecting.tallies⟩
  step {pair state outcome} collecting leftIn rightIn returned := by
    have kept := (preserves_meets maintained).step collecting.meets leftIn rightIn returned
    have regular : outcome.Keeps (fun after => after.findings.Tallies heading)
        Halt.IsRegular := by
      rcases tryPair_cases returned with ⟨reason, rfl⟩ | returned
      · exact ⟨trivial, collecting.tallies⟩
      · have findings := collecting.meets.findings
        exact @resolve_isRegular heading p setup { state with tried := state.tried.push pair }
          pair.1 pair.2 outcome (fits.gain findings.gains) findings.hasCanonical
          (maintained.bucketOver leftIn) (maintained.bucketOver rightIn) collecting.tallies returned
    cases outcome with
    | going after => exact ⟨⟨kept.1, regular⟩, kept.2⟩
    | halted halt after => exact ⟨regular.1, ⟨kept.2.1, regular.2⟩, kept.2.2⟩

end Elimination

/-! ## A search -/

/-- Eliminating a predicate of a search whose clauses keep to the guarantee is no
failure. -/
theorem Search.Meets.eliminate_isRegular {property : Signature → Clause → Prop}
    (maintained : guarantee.Maintained setup.config.answerFilter p (collectsFor heading p))
    (enters : ∀ {signature c}, property signature c → c.mentions p = true →
      guarantee.bucket signature c)
    (fits : base.Fits heading) {search : Search} {outcome : Outcome Search}
    (meets : search.Meets property guarantee.toPromise base heading)
    (tallies : search.findings.Tallies heading)
    (returned : (Search.eliminate setup p search).Returns outcome) :
    outcome.Keeps (fun after => after.findings.Tallies heading) Halt.IsRegular := by
  rcases Search.eliminate_cases meets.consistent returned with
    ⟨reason, -, rfl⟩ | ⟨-, -⟩ | @⟨bucket, rest, ended, splits, -, ran⟩
  · exact ⟨trivial, tallies⟩
  · exact tallies
  have kept := (Elimination.preserves_isCollecting maintained fits).run
    ⟨meets.start enters splits, tallies⟩ ran
  refine Search.goOn_ends ?_
  cases ended with
  | going state => exact kept.1.tallies
  | halted halt state => exact ⟨fun _ => kept.2.1.tallies, fun _ => ⟨kept.1, kept.2.1.tallies⟩⟩

/-- A search of a consistent store, whose clauses are over the signature, ends with
a result.  It has a table of answers exactly when the query asks for one. -/
theorem Store.refute_succeeds {order : EliminationOrder} {store : Store}
    {query : Option AnswerQuery} {signature extended : Signature}
    {result : Except Error Refutation} (consistent : store.Consistent)
    (isOver : ∀ c ∈ store, c.IsOver signature) (has : signature.HasCanonical)
    (fits : signature.Fits (query.map AnswerQuery.heading))
    (increasing : ∀ asked ∈ query, Sorted.IsIncreasing asked.answers.tuples)
    (returned : (store.refute setup order query signature).Returns (result, extended)) :
    ∃ refutation, result = .ok refutation ∧
      refutation.answers.map Answers.vars = query.map fun asked => asked.answers.vars := by
  obtain ⟨outcome, outcomeReturned, ended⟩ := (returns_bind ..).mp returned
  cases ended
  have start := Search.meets_start.{0} setup query consistent isOver has
  have ends : outcome.Ends (fun search => search.Meets (Store.consequences.{0} store).kept
        (Store.consequences.{0} store).toPromise signature (query.map AnswerQuery.heading) ∧
        search.findings.Tallies (query.map AnswerQuery.heading))
      (fun halt search => halt.IsRegular ∧
        search.findings.Tallies (query.map AnswerQuery.heading)) := by
    refine Search.run_ends (fun p search outcome kept eliminated => ?_)
      ⟨start, rfl, increasing⟩ (fun isEmpty => ?_) outcomeReturned
    · have maintained := store.maintained_consequences.{0} setup.config.answerFilter p
        (collectsFor (query.map AnswerQuery.heading) p)
      have meets := kept.1.eliminate maintained (fun good _ => good) (fun good _ => good) eliminated
      have regular :=
        kept.1.eliminate_isRegular maintained (fun good _ => good) fits kept.2 eliminated
      cases outcome with
      | going after => exact ⟨meets, regular⟩
      | halted halt after => exact regular
    · exact ⟨⟨start.alreadyRefuted (consistent.isUnsatisfiable_of_containsEmpty isEmpty), rfl,
        increasing⟩, trivial, rfl, increasing⟩
  have finished (status : Status) (search : Search)
      (tallies : search.findings.Tallies (query.map AnswerQuery.heading)) :
      (search.finish status).answers.map Answers.vars =
        query.map fun asked => asked.answers.vars := by
    have sameVars := congrArg (Option.map Prod.snd) tallies.heading
    simpa [Search.finish, Function.comp_def] using sameVars
  cases outcome with
  | going search => exact ⟨_, rfl, finished _ search ends.2⟩
  | halted halt search =>
      cases halt with
      | failed error => exact ends.1.elim
      | refuted | capped | gaveUp => exact ⟨_, rfl, finished _ search ends.2⟩

end Entailment.FirstOrder
