import Entailment.Proofs.FirstOrder.ExhaustiveElimination
import Mathlib.Algebra.BigOperators.Group.List.Defs
import Mathlib.Algebra.GroupWithZero.Nat
import Mathlib.Data.List.Nodup
import Mathlib.Data.List.Perm.Basic

/-!
# The rounds of an elimination

An elimination without limits tries the pairs of one round after the other, until no clause is new
or until a pair halts it.  Trying a pair takes its resolvents one after the other, until one of
them halts the elimination.  `Tries` and `Saturates` say so without any bound: they hold of the
pairs that are tried, of the resolvents that are taken and of the way in which this ends.  Whatever
an elimination ends with, its rounds have ended in this way, since every round but the last one
makes a resolvent and resolvents are counted up to the cap.

What one pair can do is said once: it keeps the number of resolvents below the cap, or it halts
the elimination for a reason.  From this follow the number of resolvents of all rounds and, with
the clauses of each side listed once, that no pair is tried twice.
-/

namespace Entailment.FirstOrder

open Monitored (returns_bind returns_pure)

/-! ## Loops -/

section

variable {α β σ : Type} {step : β → σ → Outcome σ → Prop} {entries : List β} {state : σ}
  {outcome : Outcome σ}

/-- Some steps are made one after the other, until one of them halts the search. -/
inductive Passes (step : β → σ → Outcome σ → Prop) : List β → σ → Outcome σ → Prop
  | done (state : σ) : Passes step [] state (.going state)
  | next {entry : β} {rest : List β} {state between : σ} {outcome : Outcome σ} :
      step entry state (.going between) → Passes step rest between outcome →
      Passes step (entry :: rest) state outcome
  | halt {entry : β} {state after : σ} {reason : Halt} :
      step entry state (.halted reason after) → Passes step [entry] state (.halted reason after)

/-- A loop whose body makes steps goes through its items, up to the one that halts it. -/
theorem exists_passes (view : β → α) {body : α → σ → Monitored Event (Outcome σ)}
    {items : List α} (returned : (forEach body items state).Returns outcome)
    (makes : ∀ item state outcome, (body item state).Returns outcome →
      ∃ entry, view entry = item ∧ step entry state outcome) :
    ∃ entries, entries.map view <+: items ∧ Passes step entries state outcome ∧
      ∀ after, outcome = .going after → entries.map view = items := by
  induction items generalizing state with
  | nil =>
      cases returned
      exact ⟨[], List.prefix_rfl, .done state, fun _ _ => rfl⟩
  | cons item rest ih =>
      obtain ⟨first, firstReturned, restReturned⟩ := (returns_bind ..).mp returned
      obtain ⟨entry, rfl, made⟩ := makes _ _ _ firstReturned
      cases first with
      | going between =>
          obtain ⟨entries, isPart, passes, whole⟩ := ih restReturned
          exact ⟨entry :: entries, List.cons_prefix_cons.mpr ⟨rfl, isPart⟩, .next made passes,
            fun after isGoing => by rw [List.map_cons, whole after isGoing]⟩
      | halted reason after =>
          cases restReturned
          exact ⟨[entry], List.cons_prefix_cons.mpr ⟨rfl, List.nil_prefix⟩, .halt made, nofun⟩

theorem Outcome.Ends.mono {going going' : σ → Prop} {halted halted' : Halt → σ → Prop}
    (ends : outcome.Ends going halted) (goes : ∀ {state}, going state → going' state)
    (halts : ∀ {reason state}, halted reason state → halted' reason state) :
    outcome.Ends going' halted' := by
  cases outcome with
  | going state => exact goes ends
  | halted reason state => exact halts ends

/-- What each step keeps, all of them keep, and if they are halted, one of them has done it. -/
theorem Passes.ends {invariant : σ → Prop} {halted : β → Halt → σ → Prop}
    (passes : Passes step entries state outcome) (start : invariant state)
    (each : ∀ entry ∈ entries, ∀ state outcome, invariant state → step entry state outcome →
      outcome.Ends invariant (halted entry)) :
    outcome.Ends invariant fun reason after => ∃ entry ∈ entries, halted entry reason after := by
  induction passes with
  | done state => exact start
  | halt made =>
      exact ⟨_, List.mem_singleton_self _, each _ (List.mem_singleton_self _) _ _ start made⟩
  | next made _ ih =>
      have later := ih (each _ (List.mem_cons_self ..) _ _ start made)
        fun entry mem => each entry (List.mem_cons_of_mem _ mem)
      refine later.mono id fun found => ?_
      obtain ⟨entry, mem, isHalted⟩ := found
      exact ⟨entry, List.mem_cons_of_mem _ mem, isHalted⟩

/-- What each step adds to a measure, all of them add up to. -/
theorem Passes.measure_eq (passes : Passes step entries state outcome) (measure : σ → Nat)
    (weight : β → Nat)
    (each : ∀ {entry state outcome}, step entry state outcome →
      measure outcome.state = measure state + weight entry) :
    measure outcome.state = measure state + (entries.map weight).sum := by
  induction passes with
  | done state => rfl
  | halt made => exact each made
  | next made _ ih =>
      rw [ih, List.map_cons, List.sum_cons, ← Nat.add_assoc]
      exact congrArg (· + _) (each made)

end

namespace Elimination

variable {setup : Setup} {p : PredicateSymbol} {state after : Elimination}
  {outcome : Outcome Elimination} {before : Nat}
variable {r left right : Clause} {bucket : Bucket} {collects : Bool} {findings : Findings}

/-- A pair of clauses that has been tried, with the resolvents that have been taken. -/
structure Trial where
  pair : Clause × Clause
  taken : List Clause

variable {trial : Trial} {trials : List Trial}

/-- Look at all attempts to resolve a pair, which gives answers. -/
def lookAt (setup : Setup) (p : PredicateSymbol) (pair : Clause × Clause) (state : Elimination) :
    Monitored Event (Outcome Findings) :=
  let copies := pair.1.renameApart pair.2 state.findings.signature
  forEach (Findings.takeAttempt setup.config.answerFilter p) (copies.1.attempts p copies.2.1)
    { state.findings with signature := copies.2.2 }

/-- Note that a pair has been tried and what has been found out. -/
def noted (pair : Clause × Clause) (findings : Findings) (state : Elimination) : Elimination :=
  { state with tried := state.tried.push pair, findings := findings }

/-- A pair is tried: its attempts are looked at, and then its resolvents are taken one after the
other, until one of them halts the elimination. -/
inductive Tries (setup : Setup) (p : PredicateSymbol) :
    Trial → Elimination → Outcome Elimination → Prop
  | failed {pair : Clause × Clause} {state : Elimination} {reason : Halt} {findings : Findings} :
      (lookAt setup p pair state).Returns (.halted reason findings) →
      Tries setup p ⟨pair, []⟩ state (.halted reason (state.noted pair findings))
  | resolved {pair : Clause × Clause} {taken : List Clause} {state : Elimination}
      {findings : Findings} {outcome : Outcome Elimination} :
      (lookAt setup p pair state).Returns (.going findings) →
      taken <+: (pair.1.resolvents p pair.2 state.findings.signature).1 →
      Passes (fun r state outcome => (absorb setup p pair.1 pair.2 r state).Returns outcome) taken
        (state.noted pair findings) outcome →
      (∀ after, outcome = .going after →
        taken = (pair.1.resolvents p pair.2 state.findings.signature).1) →
      Tries setup p ⟨pair, taken⟩ state outcome

/-- Rounds are gone through until one of them is halted or brings no new clause. -/
inductive Saturates (setup : Setup) (p : PredicateSymbol) :
    List Trial → Elimination → Outcome Elimination → Prop
  | halted {trials : List Trial} {state after : Elimination} {reason : Halt} :
      trials.map Trial.pair <+: state.newPairs →
      Passes (Tries setup p) trials state (.halted reason after) →
      Saturates setup p trials state (.halted reason after)
  | settled {trials : List Trial} {state after : Elimination} :
      trials.map Trial.pair = state.newPairs →
      Passes (Tries setup p) trials state (.going after) → after.added = .empty →
      Saturates setup p trials state (.going after.nextRound)
  | another {trials later : List Trial} {state after : Elimination}
      {outcome : Outcome Elimination} :
      trials.map Trial.pair = state.newPairs →
      Passes (Tries setup p) trials state (.going after) → after.added ≠ .empty →
      Saturates setup p later after.nextRound outcome →
      Saturates setup p (trials ++ later) state outcome

/-! ## One pair -/

/-- The predicate collects answers to a query, and an atom does not have an argument for each
variable of the query. -/
def Misfits (p : PredicateSymbol) (a : Atom) (findings : Findings) : Prop :=
  ∃ query, findings.answers = some query ∧ query.predicate = p ∧
    a.args.length ≠ query.answers.vars.length

/-- Why an elimination is halted when some resolvents have been taken: one of them is empty and
that was enough, the cap is reached, or an answer does not fit the query. -/
def Stops (setup : Setup) (p : PredicateSymbol) (taken : List Clause) : Halt → Elimination → Prop
  | .refuted, _ => setup.mode = .single ∧ .empty ∈ taken
  | .capped, state => state.resolutions = max 1 setup.config.maxResolutions
  | .failed _, state => ∃ c ∈ state.bucket.positive, ∃ a, .positive a ∈ c.literals ∧
      a.predicate = p ∧ Misfits p a state.findings
  | .gaveUp _, _ => False

/-- An elimination that may go on: there is room below the cap, every resolvent has been counted
in the search as well, and no side lists a clause twice. -/
structure IsOnBudget (setup : Setup) (before : Nat) (state : Elimination) : Prop where
  below : state.resolutions < max 1 setup.config.maxResolutions
  generated : state.findings.generated = before + state.resolutions
  nodup : ∀ sign, (state.side sign).Nodup

/-- An elimination that has been halted for a reason. -/
structure StopsOnBudget (setup : Setup) (p : PredicateSymbol) (before : Nat) (taken : List Clause)
    (reason : Halt) (state : Elimination) : Prop where
  within : state.resolutions ≤ max 1 setup.config.maxResolutions
  generated : state.findings.generated = before + state.resolutions
  stops : Stops setup p taken reason state

/-- A part of a round that may go on or has been halted for a reason. -/
def KeepsBudget (setup : Setup) (p : PredicateSymbol) (before : Nat) (taken : List Clause)
    (state : Elimination) (outcome : Outcome Elimination) : Prop :=
  outcome.Ends (fun after => after.IsOnBudget setup before ∧ Advances setup state after)
    (StopsOnBudget setup p before taken)

theorem StopsOnBudget.mono {taken more : List Clause} {reason : Halt}
    (stops : StopsOnBudget setup p before taken reason state) (subset : taken ⊆ more) :
    StopsOnBudget setup p before more reason state := by
  refine ⟨stops.within, stops.generated, ?_⟩
  have why := stops.stops
  cases reason with
  | refuted => exact ⟨why.1, subset why.2⟩
  | capped | gaveUp | failed => exact why

theorem nodup_append_appendNew {others clauses : List Clause} {c : Clause}
    (nodup : (others ++ clauses).Nodup) : (others ++ appendNew others clauses c).Nodup := by
  unfold appendNew
  split
  · exact nodup
  · rename_i absent
    simp only [Bool.or_eq_true, List.contains_iff_mem, ← List.mem_append] at absent
    rw [← List.append_assoc]
    exact List.nodup_append.mpr ⟨nodup, List.nodup_singleton c,
      fun a mem b isC same => absent (by rwa [← List.mem_singleton.mp isC, ← same])⟩

theorem nodup_side_withResolvent {sign : Sign} (nodup : (state.side sign).Nodup) :
    ((state.withResolvent p collects left right r).side sign).Nodup := by
  unfold withResolvent
  cases r.fate p collects with
  | returned =>
      cases sign with
      | positive =>
          change (state.bucket.positive ++ ite _ _ _).Nodup
          split
          · exact nodup_append_appendNew nodup
          · exact nodup
      | negative =>
          change (state.bucket.negative ++ ite _ _ _).Nodup
          split
          · exact nodup_append_appendNew nodup
          · exact nodup
  | _ => exact nodup

theorem generated_withResolvent :
    (state.withResolvent p collects left right r).findings.generated =
      state.findings.generated + 1 := by
  unfold withResolvent
  cases r.fate p collects <;> rfl

theorem eq_empty_of_fate (fate : r.fate p collects = .refutation) : r = .empty := by
  have spec := r.fate_spec p collects
  rwa [fate] at spec

theorem resolutions_absorb (returned : (absorb setup p left right r state).Returns outcome) :
    outcome.state.resolutions = state.resolutions + 1 := by
  rcases absorb_cases rfl returned with ⟨rfl, -⟩ | ⟨rfl, -⟩ | ⟨rfl, -⟩ <;>
    exact resolutions_withResolvent

/-- Taking a resolvent. -/
theorem IsOnBudget.absorb (onBudget : state.IsOnBudget setup before)
    (returned : (absorb setup p left right r state).Returns outcome) :
    KeepsBudget setup p before [r] state outcome := by
  obtain ⟨collects, collecting⟩ : ∃ collects, state.findings.collects p = collects := ⟨_, rfl⟩
  have room := onBudget.below
  have counted := @resolutions_withResolvent p state collects left right r
  have generated : (state.withResolvent p collects left right r).findings.generated =
      before + (state.withResolvent p collects left right r).resolutions := by
    rw [generated_withResolvent, onBudget.generated, counted, Nat.add_assoc]
  rcases absorb_cases collecting returned with
    ⟨rfl, single, isRefutation⟩ | ⟨rfl, atCap⟩ | ⟨rfl, below⟩
  · have isEmpty : r = .empty := eq_empty_of_fate isRefutation
    exact ⟨by omega, generated, single, isEmpty ▸ List.mem_singleton_self _⟩
  · exact ⟨by simp only [truncate]; omega, generated, by simp only [Stops, truncate]; omega⟩
  · exact ⟨⟨by omega, generated, fun sign => nodup_side_withResolvent (onBudget.nodup sign)⟩,
      advances_withResolvent below⟩

/-- Looking at an attempt counts nothing, and is a failure only if its literal does not fit. -/
theorem takeAttempt_returns {filter : AnswerFilter} {attempt : Attempt} {ended : Outcome Findings}
    (returned : (findings.takeAttempt filter p attempt).Returns ended) :
    ended.Ends (fun after => findings.AddsTo after ∧ after.generated = findings.generated)
      (fun reason after => after.generated = findings.generated ∧
        (∃ error, reason = .failed error) ∧ Misfits p attempt.positive after) := by
  rcases Findings.takeAttempt_cases returned with
    ⟨rfl, -⟩ | ⟨query, tuple, gives, ⟨-, rfl⟩ | ⟨misfits, error, rfl⟩⟩
  · exact ⟨.refl findings, rfl⟩
  · exact ⟨Findings.addsTo_withAnswer gives.current, rfl⟩
  · obtain ⟨σ, -, rfl⟩ := Option.map_eq_some_iff.mp gives.isTuple
    rw [List.length_map] at misfits
    exact ⟨rfl, ⟨error, rfl⟩, query, gives.current, gives.onPredicate, misfits⟩

/-- The literals that are set against each other are copies of literals of the two clauses. -/
theorem exists_literal_of_attempt {c d : Clause} {signature : Signature} {attempt : Attempt}
    (mem : attempt ∈ (c.renameApart d signature).1.attempts p (c.renameApart d signature).2.1) :
    ∃ a, .positive a ∈ c.literals ∧ a.predicate = p ∧
      a.args.length = attempt.positive.args.length := by
  obtain ⟨copy, b, place, otherPlace, found, -, onPredicate, -, rfl⟩ := Clause.mem_attempts.mp mem
  obtain ⟨⟨a, sign⟩, inClause, isCopy⟩ := Clause.mem_literals_apply.mp (List.mem_of_getElem? found)
  cases isCopy
  exact ⟨a, inClause, onPredicate, (List.length_map ..).symm⟩

/-- What each step of a round keeps, all of them keep. -/
theorem IsOnBudget.passes {β : Type} {step : β → Elimination → Outcome Elimination → Prop}
    {entries : List β} (onBudget : after.IsOnBudget setup before)
    (advances : Advances setup state after) (passes : Passes step entries after outcome)
    (resolvents : β → List Clause)
    (each : ∀ entry ∈ entries, ∀ during ended, during.IsOnBudget setup before →
      Advances setup state during → step entry during ended →
        KeepsBudget setup p before (resolvents entry) during ended) :
    KeepsBudget setup p before (entries.flatMap resolvents) state outcome := by
  have ends : outcome.Ends
      (fun final => final.IsOnBudget setup before ∧ Advances setup state final)
      (fun reason final => ∃ entry ∈ entries,
        StopsOnBudget setup p before (resolvents entry) reason final) := by
    refine passes.ends ⟨onBudget, advances⟩ fun entry mem during ended kept made => ?_
    exact (each entry mem during ended kept.1 kept.2 made).imp
      fun next => ⟨next.1, kept.2.trans next.2⟩
  refine ends.mono id fun found => ?_
  obtain ⟨entry, mem, stops⟩ := found
  exact stops.mono fun r taken => List.mem_flatMap.mpr ⟨entry, mem, taken⟩

/-- Without limits every pair is tried, whatever this ends with. -/
theorem exists_tries (unlimited : setup.config.limits = .unlimited) {pair : Clause × Clause}
    (returned : (tryPair setup p pair state).Returns outcome) :
    ∃ trial : Trial, trial.pair = pair ∧ Tries setup p trial state outcome := by
  have resolved := resolve_of_tryPair unlimited returned
  simp only [resolve, returns_bind] at resolved
  obtain ⟨looked, lookedReturned, resolved⟩ := resolved
  cases looked with
  | halted reason findings =>
      cases resolved
      exact ⟨⟨pair, []⟩, rfl, .failed lookedReturned⟩
  | going findings =>
      obtain ⟨taken, isPart, passes, whole⟩ := exists_passes id resolved
        fun r _ _ absorbed => ⟨r, rfl, absorbed⟩
      rw [List.map_id] at isPart whole
      exact ⟨⟨pair, taken⟩, rfl, .resolved lookedReturned isPart passes whole⟩

/-- Looking at the attempts of a pair counts nothing, and is a failure only if a literal of the
first clause does not fit. -/
theorem lookAt_returns {pair : Clause × Clause} {ended : Outcome Findings}
    (returned : (lookAt setup p pair state).Returns ended) :
    ended.Ends
      (fun findings => Advances setup state (state.noted pair findings) ∧
        findings.generated = state.findings.generated)
      (fun reason findings => findings.generated = state.findings.generated ∧
        (∃ error, reason = .failed error) ∧ ∃ a, .positive a ∈ pair.1.literals ∧
          a.predicate = p ∧ Misfits p a findings) := by
  simp only [lookAt] at returned
  generalize (pair.1.renameApart pair.2 state.findings.signature).2.2 = extended at returned
  have looked : ended.Ends
      (fun findings => Findings.AddsTo { state.findings with signature := extended } findings ∧
        findings.generated = state.findings.generated)
      (fun reason findings => findings.generated = state.findings.generated ∧
        (∃ error, reason = .failed error) ∧ ∃ a, .positive a ∈ pair.1.literals ∧
          a.predicate = p ∧ Misfits p a findings) := by
    refine forEach_keeps (fun attempt mem during ended kept taken => ?_) ⟨.refl _, rfl⟩ returned
    have next := takeAttempt_returns taken
    cases ended with
    | going findings => exact ⟨kept.1.trans next.1, next.2.trans kept.2⟩
    | halted reason findings =>
        obtain ⟨same, failed, query, current, isAnswer, misfits⟩ := next
        obtain ⟨a, inClause, onPredicate, sameLength⟩ := exists_literal_of_attempt mem
        rw [← sameLength] at misfits
        exact ⟨same.trans kept.2, failed, a, inClause, onPredicate,
          query, current, isAnswer, misfits⟩
  exact looked.imp fun kept => ⟨advances_tried (advances_withFindings kept.1), kept.2⟩

/-- Trying a pair, the first clause of which is on the positive side. -/
theorem IsOnBudget.tries (onBudget : state.IsOnBudget setup before)
    (mem : trial.pair.1 ∈ state.bucket.positive) (tries : Tries setup p trial state outcome) :
    KeepsBudget setup p before trial.taken state outcome := by
  cases tries with
  | failed looked =>
      obtain ⟨same, ⟨error, rfl⟩, misfit⟩ := lookAt_returns looked
      exact ⟨Nat.le_of_lt onBudget.below, same.trans onBudget.generated, _, mem, misfit⟩
  | @resolved pair taken _ findings _ looked _ passes _ =>
      obtain ⟨started, same⟩ := lookAt_returns looked
      have roomLeft : (state.noted pair findings).IsOnBudget setup before :=
        ⟨onBudget.below, same.trans onBudget.generated, onBudget.nodup⟩
      have kept := roomLeft.passes started passes (fun r => [r])
        fun r _ during ended onBudget _ returned => onBudget.absorb returned
      rwa [List.flatMap_singleton'] at kept

/-- The resolvents of a pair are counted. -/
theorem Tries.resolutions_eq (tries : Tries setup p trial state outcome) :
    outcome.state.resolutions = state.resolutions + trial.taken.length := by
  cases tries with
  | failed _ => rfl
  | resolved _ _ passes _ =>
      rw [passes.measure_eq Elimination.resolutions (fun _ => 1) resolutions_absorb]
      simp [noted]

/-! ## Rounds -/

/-- The pairs of a round. -/
theorem IsOnBudget.round (onBudget : state.IsOnBudget setup before)
    (isPart : trials.map Trial.pair <+: state.newPairs)
    (passes : Passes (Tries setup p) trials state outcome) :
    KeepsBudget setup p before (trials.flatMap Trial.taken) state outcome := by
  refine onBudget.passes (.refl setup state) passes Trial.taken
    fun trial mem during ended onBudget advances tries => ?_
  have inBucket := (mem_newPairs.mp (isPart.subset (List.mem_map_of_mem mem))).1
  rw [← advances.bucket] at inBucket
  exact onBudget.tries inBucket tries

theorem IsOnBudget.nextRound (onBudget : state.IsOnBudget setup before) :
    state.nextRound.IsOnBudget setup before := by
  refine ⟨onBudget.below, onBudget.generated, fun sign => ?_⟩
  have same : state.nextRound.side sign = state.side sign := by
    cases sign <;> exact List.append_nil _
  rw [same]
  exact onBudget.nodup sign

/-- A round without new clauses changes nothing. -/
theorem eq_going_of_saturate (noneFresh : state.fresh = .empty) (noneAdded : state.added = .empty)
    (returned : (saturate setup p state).Returns outcome) : outcome = .going state := by
  have noPairs : state.newPairs = [] := by
    simp [newPairs, pairs, noneFresh, Bucket.empty]
  have sameState : state.nextRound = state := by
    obtain ⟨findings, settled, fresh, added, kept, tried, resolutions⟩ := state
    cases noneFresh
    cases noneAdded
    simp [Elimination.nextRound, bucket, Bucket.append, Bucket.empty]
  rw [Elimination.saturate, noPairs] at returned
  obtain ⟨round, roundReturned, returned⟩ := (returns_bind ..).mp returned
  cases roundReturned
  simp only [Nat.lt_irrefl, false_and, if_false, sameState, returns_pure] at returned
  exact returned.symm

/-- Whatever the rounds end with, they have ended because one of them was halted or brought no
new clause. -/
theorem exists_saturates (unlimited : setup.config.limits = .unlimited)
    (onBudget : state.IsOnBudget setup before) (noneAdded : state.added = .empty)
    (returned : (saturate setup p state).Returns outcome) :
    ∃ trials, Saturates setup p trials state outcome := by
  induction state using saturate.induct setup with
  | case1 state ih =>
      rw [Elimination.saturate] at returned
      obtain ⟨round, roundReturned, returned⟩ := (returns_bind ..).mp returned
      obtain ⟨trials, isPart, passes, whole⟩ :=
        exists_passes Trial.pair roundReturned fun _ _ _ => exists_tries unlimited
      have afterRound := onBudget.round isPart passes
      cases round with
      | halted reason after =>
          cases returned
          exact ⟨trials, .halted isPart passes⟩
      | going after =>
          have allPairs := whole after rfl
          obtain ⟨afterOnBudget, advances⟩ := afterRound
          simp only at returned
          by_cases afterAdded : after.added = .empty
          · have settled : Saturates setup p trials state (.going after.nextRound) :=
              .settled allPairs passes afterAdded
            split at returned
            · cases eq_going_of_saturate afterAdded rfl returned
              exact ⟨_, settled⟩
            · cases returned
              exact ⟨_, settled⟩
          · -- A clause is new, so a resolvent was made and counted.
            have counted := advances.counted.resolve_left
              fun same => afterAdded (same.2.trans noneAdded)
            rw [if_pos counted] at returned
            obtain ⟨later, saturates⟩ := ih after counted afterOnBudget.nextRound rfl returned
            exact ⟨_, .another allPairs passes afterAdded saturates⟩

/-- All rounds keep the number of resolvents below the cap. -/
theorem IsOnBudget.saturates (onBudget : state.IsOnBudget setup before)
    (saturates : Saturates setup p trials state outcome) :
    outcome.Ends (IsOnBudget setup before)
      (StopsOnBudget setup p before (trials.flatMap Trial.taken)) := by
  induction saturates with
  | halted isPart passes => exact onBudget.round isPart passes
  | settled all passes _ => exact (onBudget.round (all ▸ List.prefix_rfl) passes).1.nextRound
  | another all passes _ _ ih =>
      have next := (onBudget.round (all ▸ List.prefix_rfl) passes).1.nextRound
      refine (ih next).mono id fun stops => ?_
      rw [List.flatMap_append]
      exact stops.mono (List.subset_append_right ..)

/-- The resolvents of all rounds are counted. -/
theorem Saturates.resolutions_eq (saturates : Saturates setup p trials state outcome) :
    outcome.state.resolutions = state.resolutions + (trials.flatMap Trial.taken).length := by
  have counted {trials : List Trial} {state : Elimination} {outcome : Outcome Elimination}
      (passes : Passes (Tries setup p) trials state outcome) :
      outcome.state.resolutions = state.resolutions + (trials.flatMap Trial.taken).length := by
    rw [List.length_flatMap]
    exact passes.measure_eq Elimination.resolutions _ Tries.resolutions_eq
  induction saturates with
  | halted _ passes => exact counted passes
  | settled _ passes _ =>
      have count := counted passes
      exact count
  | another _ passes _ _ ih =>
      rw [List.flatMap_append, List.length_append, ← Nat.add_assoc]
      exact ih.trans (congrArg (· + _) (counted passes))

theorem onBudget_start (setup : Setup) (nodup : ∀ sign, (bucket.side sign).Nodup)
    (findings : Findings) : (start bucket findings).IsOnBudget setup findings.generated := by
  refine ⟨Nat.lt_of_lt_of_le Nat.one_pos (Nat.le_max_left ..), rfl, fun sign => ?_⟩
  have same : (start bucket findings).side sign = bucket.side sign := by
    cases sign <;> simp [side, start, Elimination.bucket, Bucket.append, Bucket.side, Bucket.empty]
  rw [same]
  exact nodup sign

/-- What a whole elimination ends with, its rounds end with. -/
theorem exists_saturates_of_run (unlimited : setup.config.limits = .unlimited)
    (nodup : ∀ sign, (bucket.side sign).Nodup)
    (returned : (run setup p bucket findings).Returns outcome) :
    ∃ trials, Saturates setup p trials (start bucket findings) outcome :=
  exists_saturates unlimited (onBudget_start setup nodup findings) rfl (saturate_of_run returned)

/-! ## Each pair once -/

/-- The pairs of different clauses of a bucket. -/
def differing (bucket : Bucket) : List (Clause × Clause) :=
  (pairs bucket.positive bucket.negative).filter fun pair => decide (pair.1 ≠ pair.2)

theorem pairs_append_perm (first second others more : List Clause) :
    (pairs (first ++ second) (others ++ more)).Perm
      (pairs first others ++ (pairs first more ++ pairs second (others ++ more))) := by
  have split : (pairs first (others ++ more)).Perm (pairs first others ++ pairs first more) := by
    simp only [pairs, List.map_append]
    exact (List.flatMap_append_perm first _ _).symm
  rw [← List.append_assoc]
  simp only [pairs, List.flatMap_append] at split ⊢
  exact split.append_right _

/-- With the pairs of a round, all pairs of the bucket have been tried that were not before. -/
theorem differing_append_newPairs_perm (state : Elimination) :
    (differing state.settled ++ state.newPairs).Perm (differing state.bucket) := by
  have all := pairs_append_perm state.settled.positive state.fresh.positive
    state.settled.negative state.fresh.negative
  have filtered := (all.filter fun pair => decide (pair.1 ≠ pair.2)).symm
  rw [List.filter_append] at filtered
  exact filtered

/-- Rounds that come to an end have tried all pairs of the bucket. -/
theorem Saturates.perm (saturates : Saturates setup p trials state outcome)
    (onBudget : state.IsOnBudget setup before) :
    outcome.Ends
      (fun final => final.fresh = .empty ∧ final.added = .empty ∧
        (differing state.settled ++ trials.map Trial.pair).Perm (differing final.settled))
      (fun _ _ => True) := by
  induction saturates with
  | halted => trivial
  | @settled trials state after all passes noneAdded =>
      have advances := (onBudget.round (all ▸ List.prefix_rfl) passes).2
      refine ⟨noneAdded, rfl, ?_⟩
      have sameBucket : after.nextRound.settled = state.bucket := advances.bucket
      rw [sameBucket, all]
      exact differing_append_newPairs_perm state
  | @another trials later state after outcome all passes _ _ ih =>
      obtain ⟨afterOnBudget, advances⟩ := onBudget.round (all ▸ List.prefix_rfl) passes
      have sameBucket : after.nextRound.settled = state.bucket := advances.bucket
      have ended := ih afterOnBudget.nextRound
      rw [sameBucket] at ended
      refine ended.imp fun laterTried => ⟨laterTried.1, laterTried.2.1, ?_⟩
      rw [List.map_append, all, ← List.append_assoc]
      exact ((differing_append_newPairs_perm state).append_right _).trans laterTried.2.2

/-- Some pairs are the pairs of different clauses of the two sides, each once. -/
def TriesEachOnce (tried : List (Clause × Clause)) (state : Elimination) : Prop :=
  ∀ c d, tried.count (c, d) =
    if c ∈ state.side .positive ∧ d ∈ state.side .negative ∧ c ≠ d then 1 else 0

theorem count_differing (nodup : ∀ sign, (bucket.side sign).Nodup) (c d : Clause) :
    (differing bucket).count (c, d) =
      if c ∈ bucket.positive ∧ d ∈ bucket.negative ∧ c ≠ d then 1 else 0 := by
  have nodupPairs : (differing bucket).Nodup :=
    ((nodup .positive).product (nodup .negative)).filter _
  have mem : (c, d) ∈ differing bucket ↔ c ∈ bucket.positive ∧ d ∈ bucket.negative ∧ c ≠ d := by
    rw [differing, List.mem_filter, mem_pairs, decide_eq_true_eq, and_assoc]
  split
  · exact List.count_eq_one_of_mem nodupPairs (mem.mpr ‹_›)
  · exact List.count_eq_zero_of_not_mem (mem.not.mpr ‹_›)

/-- An elimination that comes to its end has tried each pair of different clauses once. -/
theorem triesEachOnce_of_saturates (nodupBucket : ∀ sign, (bucket.side sign).Nodup)
    (saturates : Saturates setup p trials (start bucket findings) (.going after)) :
    TriesEachOnce (trials.map Trial.pair) after := by
  have onBudget := onBudget_start setup nodupBucket findings
  obtain ⟨noneFresh, noneAdded, perm⟩ := saturates.perm onBudget
  have nodup := (onBudget.saturates saturates).nodup
  have sides (sign : Sign) : after.side sign = after.settled.side sign := by
    cases sign <;> simp [side, Elimination.bucket, Bucket.append, Bucket.side, noneFresh, noneAdded,
      Bucket.empty]
  intro c d
  rw [← List.nil_append (trials.map Trial.pair), sides, sides]
  refine (perm.count_eq _).trans (count_differing (fun sign => ?_) c d)
  rw [← sides]
  exact nodup sign

end Elimination

end Entailment.FirstOrder
