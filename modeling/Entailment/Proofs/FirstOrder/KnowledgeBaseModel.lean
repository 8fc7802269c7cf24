import Entailment.Proofs.FirstOrder.AnswerRule
import Entailment.Proofs.FirstOrder.RefutationSoundness

/-!
# Knowledge bases and what they were told

The store of a knowledge base keeps to what the knowledge base was told: every
structure for names that satisfies the told formulas is read by some model of the
store.  Telling a formula adds its clauses, and the model is extended to the new
symbols.  Asking leaves the store as it is and lets the signature grow, whatever
the answer is.
-/

namespace Entailment.FirstOrder

open Monitored

universe u

/-- What a knowledge base keeps to, with the formulas it was told. -/
structure KnowledgeBase.IsSound (told : List SurfaceFormula) (kb : KnowledgeBase) : Prop where
  consistent : kb.store.Consistent
  hasCanonical : kb.signature.HasCanonical
  isOver : ∀ c ∈ kb.store, c.IsOver kb.signature
  plain : ∀ c ∈ kb.store, ∀ literal ∈ c.literals,
    IsPlain (kb.signature.predicateInfo literal.atom.predicate).name
  model : ∀ ⦃D : Type u⦄ (N : Structure String String D),
    (∀ formula ∈ told, N.SatisfiesClosure formula) →
      ∃ M : Model D, M.Reads kb.signature N ∧ M.IsModelOf kb.store

namespace KnowledgeBase

variable {kb after : KnowledgeBase} {text : String} {signature : Signature}
    {told : List SurfaceFormula} {clauses : List Clause} {start : Duration}

theorem isSound_empty (config : Config) : IsSound.{u} [] (empty config) where
  consistent := Store.consistent_empty
  hasCanonical := by simp [empty, Signature.empty, Signature.HasCanonical]
  isOver c mem := absurd mem (Store.not_mem_empty c)
  plain c mem := absurd mem (Store.not_mem_empty c)
  model D N _ := by
    have noSymbol : Structure.Reads Signature.empty
        (⟨fun _ => N.function "", fun _ => N.predicate ""⟩ : Model D) N :=
      ⟨fun f bound => absurd bound (Nat.not_lt_zero _),
        fun p bound => absurd bound (Nat.not_lt_zero _)⟩
    exact ⟨_, noSymbol, fun c mem => absurd mem (Store.not_mem_empty c)⟩

/-- A knowledge base with the same store over a grown signature. -/
theorem IsSound.grow (sound : IsSound.{u} told kb) (grows : kb.signature.GrowsTo after.signature)
    (has : after.signature.HasCanonical) (store : after.store = kb.store) :
    IsSound.{u} told after where
  consistent := store ▸ sound.consistent
  hasCanonical := has
  isOver c mem := (sound.isOver c (store ▸ mem)).mono grows
  plain c mem literal literalMem := by
    have inStore : c ∈ kb.store := store ▸ mem
    rw [grows.predicateInfo (sound.isOver c inStore literal literalMem).bound]
    exact sound.plain c inStore literal literalMem
  model D N satisfied := by
    obtain ⟨M, reads, isModel⟩ := sound.model N satisfied
    have agree := M.extend_agreesOn N kb.signature after.signature
    refine ⟨M.extend N kb.signature after.signature, reads.extend grows, fun c mem => ?_⟩
    have inStore : c ∈ kb.store := store ▸ mem
    exact ((sound.isOver c inStore).satisfies_iff agree).mpr (isModel c inStore)

/-- The store with more clauses, over a grown signature. -/
theorem IsSound.insertAll (sound : IsSound.{u} told kb) (grows : kb.signature.GrowsTo signature)
    (isOver : ∀ c ∈ clauses, c.IsOver signature) :
    (kb.store.insertAll clauses).Consistent ∧
      (∀ c, c ∈ kb.store.insertAll clauses ↔ c ∈ clauses ∨ c ∈ kb.store) ∧
      ∀ c ∈ kb.store.insertAll clauses, c.IsOver signature := by
  obtain ⟨consistent, mem_iff⟩ := sound.consistent.insertAll clauses
  refine ⟨consistent, mem_iff, fun c mem => ?_⟩
  rcases (mem_iff c).mp mem with isNew | old
  · exact isOver c isNew
  · exact (sound.isOver c old).mono grows

/-- The store of a knowledge base with the clauses of a query, over the signature of
these clauses. -/
structure IsReady (kb : KnowledgeBase) (clauses : List Clause) (signature : Signature) : Prop where
  grows : kb.signature.GrowsTo signature
  proper : kb.signature.IsProper → signature.IsProper
  hasCanonical : signature.HasCanonical
  consistent : (kb.store.insertAll clauses).Consistent
  mem_iff : ∀ c, c ∈ kb.store.insertAll clauses ↔ c ∈ clauses ∨ c ∈ kb.store
  isOver : ∀ c ∈ kb.store.insertAll clauses, c.IsOver signature

theorem IsSound.isReady (sound : IsSound.{u} told kb) {middle : Signature}
    {property other : String → Prop} (first : kb.signature.GainsSymbols property middle)
    (second : middle.GainsSymbols other signature) (isOver : ∀ c ∈ clauses, c.IsOver signature) :
    kb.IsReady clauses signature := by
  have grows := first.grows.trans second.grows
  obtain ⟨consistent, mem_iff, isOver⟩ := sound.insertAll grows isOver
  exact ⟨grows, fun proper => second.proper (first.proper proper),
    second.canonical (first.canonical sound.hasCanonical), consistent, mem_iff, isOver⟩

/-! ## Telling -/

/-- What telling a formula does. -/
theorem exists_of_tell (returned : (kb.tell text).Returns (.ok after)) :
    ∃ formula clauses, SurfaceFormula.parse text = .ok formula ∧
      ((formula.lower kb.signature).1.clausify (formula.lower kb.signature).2).clauses =
        .ok clauses ∧
      after.signature =
        ((formula.lower kb.signature).1.clausify (formula.lower kb.signature).2).signature ∧
      after.store = kb.store.insertAll clauses ∧ after.planner = kb.planner ∧
      after.config = kb.config := by
  unfold tell at returned
  cases parsed : SurfaceFormula.parse text with
  | error error =>
      rw [parsed] at returned
      cases returned
  | ok formula =>
      simp only [parsed, returns_bind, returns_tellAll, true_and, exists_const] at returned
      split at returned
      · cases returned
      · rename_i clauses made
        simp only [returns_bind, returns_tell, true_and, exists_const, returns_pure] at returned
        cases returned
        exact ⟨formula, clauses, rfl, made, rfl, rfl, rfl, rfl⟩

/-- The atoms of the clauses of a written formula have plain predicates. -/
theorem plain_of_clausifies {after : Signature} {free : List Variable}
    {normal : Formula Variable Atom} {disjunctions : ClauseSet Atom}
    (clausifies : Clausifies.{u} (Atom.IsWritten signature free) free normal signature disjunctions
      clauses after) {c : Clause} (mem : c ∈ clauses) {literal : Literal Atom}
    (literalMem : literal ∈ c.literals) :
    IsPlain (after.predicateInfo literal.atom.predicate).name := by
  obtain ⟨disjunction, disjunctionMem, σ, -, rfl⟩ := clausifies.variant c mem
  obtain ⟨original, originalMem, rfl⟩ := Clause.mem_literals_apply.mp literalMem
  obtain ⟨binders, a, τ, written, instanceOf, -⟩ :=
    clausifies.atoms disjunction disjunctionMem original (Sorted.mem_ofList.mp originalMem)
  have predicate : (original.map (Atom.apply σ)).atom.predicate = a.predicate := by
    rw [Literal.map, instanceOf]
    rfl
  rw [predicate, clausifies.gains.grows.predicateInfo written.isOver.bound]
  exact written.plain

/-- The store after a formula was told keeps to the formula as well. -/
theorem IsSound.tell (sound : IsSound.{u} told kb) (returned : (kb.tell text).Returns (.ok after)) :
    ∃ formula, SurfaceFormula.parse text = .ok formula ∧
      IsSound.{u} (told ++ [formula]) after := by
  obtain ⟨formula, clauses, parsed, made, signature, store, -⟩ := exists_of_tell returned
  refine ⟨formula, parsed, ?_⟩
  have lowered :=
    SurfaceFormula.lower_means.{u} kb.signature (SurfaceFormula.isNamed_of_parse parsed)
  have gains := lowered.gains
  obtain ⟨normal, disjunctions, others, -, normalHolds, othersMade, clausifies⟩ :=
    clausesOf_spec.{u} (fun _ _ written => written.toIsScoped)
      (gains.canonical sound.hasCanonical) lowered.freeOver false lowered.atoms
  obtain rfl : others = clauses := Except.ok.inj (othersMade.symm.trans made)
  replace clausifies := signature ▸ clausifies
  have grows : kb.signature.GrowsTo after.signature := gains.grows.trans clausifies.gains.grows
  have grown : IsSound.{u} told { kb with signature := after.signature } :=
    sound.grow grows (clausifies.gains.canonical (gains.canonical sound.hasCanonical)) rfl
  obtain ⟨consistent, mem_iff, isOver⟩ := sound.insertAll grows clausifies.isOver
  rw [← store] at consistent mem_iff isOver
  constructor
  · exact consistent
  · exact grown.hasCanonical
  · exact isOver
  · intro c mem
    rcases (mem_iff c).mp mem with isNew | old
    · exact fun literal literalMem => plain_of_clausifies clausifies isNew literalMem
    · exact grown.plain c old
  · intro D N satisfied
    obtain ⟨M, reads, isModel⟩ :=
      sound.model N fun other mem => satisfied other (List.mem_append_left _ mem)
    have reads₁ := reads.extend gains.grows
    have agree₁ := M.extend_agreesOn N kb.signature (formula.lower kb.signature).2
    have formulaHolds₁ := (lowered.satisfiesClosure_iff reads₁).mp (satisfied formula (by simp))
    obtain ⟨M', agree', newClauses⟩ := clausifies.model _ fun ρ =>
      (normalHolds _ ρ).mpr (formulaHolds₁ ρ)
    refine ⟨M', reads₁.gain clausifies.gains agree', fun c mem => ?_⟩
    rcases (mem_iff c).mp mem with isNew | old
    · exact newClauses c isNew
    · have agree := (agree'.of_growsTo gains.grows).trans agree₁
      exact ((sound.isOver c old).satisfies_iff agree).mpr (isModel c old)

/-! ## Asking -/

/-- Recording a refutation changes what is known of the last query only. -/
theorem record_returns {refutation : Refutation}
    (returned : (record start refutation kb).Returns after) :
    after.signature = kb.signature ∧ after.store = kb.store ∧ after.planner = kb.planner ∧
      after.config = kb.config ∧ after.statistics.truncated = refutation.truncated := by
  unfold record at returned
  split at returned
  · simp only [returns_bind, returns_tell, true_and, exists_const, returns_clock] at returned
    obtain ⟨now, rfl⟩ := returned
    exact ⟨rfl, rfl, rfl, rfl, rfl⟩
  · simp only [returns_bind, returns_clock, true_and] at returned
    obtain ⟨now, rfl⟩ := returned
    exact ⟨rfl, rfl, rfl, rfl, rfl⟩

/-- What a knowledge base carries on after a refutation of `searched`. -/
structure Carries (kb : KnowledgeBase) (searched : Store) (answer : Option PredicateSymbol)
    (refutation : Refutation) (extended : Signature) (after : KnowledgeBase) : Prop where
  signature : after.signature = extended
  store : after.store = kb.store
  planner : after.planner = (kb.planner.orderFor searched answer).2.2
  config : after.config = kb.config
  truncated : after.statistics.truncated = refutation.truncated

/-- A refutation that a knowledge base tries is one of the store it is given, in
the order of the planner. -/
theorem refute_returns {mode : ProofMode} {query : Option AnswerQuery} {store : Store}
    {result : Except Error (Refutation × KnowledgeBase)}
    (returned : (kb.refute start mode query store signature).Returns result) :
    ∃ begun outcome extended,
      (store.refute ⟨kb.config, mode, begun⟩
        (kb.planner.orderFor store (query.map AnswerQuery.predicate)).1 query signature).Returns
          (outcome, extended) ∧
      ((∃ error, outcome = .error error ∧ result = .error error) ∨
        ∃ refutation after, outcome = .ok refutation ∧ result = .ok (refutation, after) ∧
          kb.Carries store (query.map AnswerQuery.predicate) refutation extended after) := by
  simp only [refute, returns_bind, returns_tellAll, returns_clock, true_and,
    exists_const] at returned
  obtain ⟨begun, ⟨outcome, extended⟩, refuted, returned⟩ := returned
  refine ⟨begun, outcome, extended, refuted, ?_⟩
  cases outcome with
  | error error =>
      cases returned
      exact .inl ⟨error, rfl, rfl⟩
  | ok refutation =>
      simp only [returns_bind, returns_pure] at returned
      obtain ⟨after, recording, rfl⟩ := returned
      obtain ⟨sameSignature, sameStore, samePlanner, sameConfig, truncated⟩ :=
        record_returns recording
      exact .inr ⟨refutation, after, rfl, rfl, sameSignature, sameStore, samePlanner, sameConfig,
        truncated⟩

/-- A refutation of a store that is ready for it only adds variables. -/
theorem IsReady.gains {mode : ProofMode} {query : Option AnswerQuery} {refutation : Refutation}
    (ready : kb.IsReady clauses signature)
    (returned : (kb.refute start mode query (kb.store.insertAll clauses) signature).Returns
      (.ok (refutation, after))) :
    signature.GainsVariables after.signature ∧ kb.Carries (kb.store.insertAll clauses)
      (query.map AnswerQuery.predicate) refutation after.signature after := by
  obtain ⟨begun, outcome, extended, refuted, ended⟩ := refute_returns returned
  obtain ⟨gains, -⟩ :=
    Store.refute_sound.{0} ready.consistent ready.isOver ready.hasCanonical refuted
  rcases ended with ⟨error, -, isError⟩ | ⟨_, _, -, isResult, carries⟩
  · cases isError
  · cases isResult
    rw [carries.signature]
    exact ⟨gains, carries⟩

theorem exists_of_refute {mode : ProofMode} {query : Option AnswerQuery} {store : Store}
    {refutation : Refutation}
    (returned : (kb.refute start mode query store signature).Returns (.ok (refutation, after))) :
    ∃ begun order, (store.refute ⟨kb.config, mode, begun⟩ order query signature).Returns
        (.ok refutation, after.signature) ∧ after.store = kb.store := by
  obtain ⟨begun, outcome, extended, refuted, ended⟩ := refute_returns returned
  rcases ended with ⟨error, -, isError⟩ | ⟨_, _, rfl, isResult, carries⟩
  · cases isError
  · cases isResult
    exact ⟨begun, _, carries.signature ▸ refuted, carries.store⟩

/-- Asking a query that has clauses is refuting the store with them. -/
theorem ask_returns {formula : SurfaceFormula} {clauses : List Clause}
    {result : Except Error (Bool × KnowledgeBase)}
    (parsed : SurfaceFormula.parse text = .ok formula)
    (made : (clausesOf true [] (formula.lower kb.signature).1.close (formula.lower
      kb.signature).2).clauses = .ok clauses) (returned : (kb.ask text).Returns result) :
    ∃ start searched, (kb.refute start .single none (kb.store.insertAll clauses)
        (clausesOf true [] (formula.lower kb.signature).1.close
          (formula.lower kb.signature).2).signature).Returns searched ∧
      result = searched.map fun entry => (decide (entry.1.status = .refuted), entry.2) := by
  simp only [ask, parsed, made, returns_bind, returns_clock, returns_tellAll,
    true_and, exists_const] at returned
  obtain ⟨start, searched, refuted, returned⟩ := returned
  refine ⟨start, searched, refuted, ?_⟩
  cases searched with
  | error error =>
      cases returned
      rfl
  | ok entry =>
      simp only [returns_bind, returns_tell, true_and, exists_const, returns_pure] at returned
      exact returned.symm

/-- Asking a query refutes the store with the clauses of the negated query. -/
theorem exists_refute_of_ask {proven : Bool}
    (returned : (kb.ask text).Returns (.ok (proven, after))) :
    ∃ formula clauses start refutation, SurfaceFormula.parse text = .ok formula ∧
      (clausesOf true [] (formula.lower kb.signature).1.close
        (formula.lower kb.signature).2).clauses = .ok clauses ∧
      (kb.refute start .single none (kb.store.insertAll clauses)
        (clausesOf true [] (formula.lower kb.signature).1.close
          (formula.lower kb.signature).2).signature).Returns (.ok (refutation, after)) ∧
      proven = decide (refutation.status = .refuted) := by
  cases parsed : SurfaceFormula.parse text with
  | error error =>
      simp only [ask, parsed, returns_bind, returns_clock, returns_pure, reduceCtorEq, and_false,
        exists_false] at returned
  | ok formula =>
      cases made : (clausesOf true [] (formula.lower kb.signature).1.close
          (formula.lower kb.signature).2).clauses with
      | error error =>
          simp only [ask, parsed, made, returns_bind, returns_clock, returns_tellAll, returns_pure,
            reduceCtorEq, and_false, exists_false] at returned
      | ok clauses =>
          obtain ⟨start, _ | ⟨refutation, later⟩, refuted, isResult⟩ :=
            ask_returns parsed made returned
          · cases isResult
          · cases isResult
            exact ⟨formula, clauses, start, refutation, rfl, made, refuted, rfl⟩

/-- What asking a query does. -/
theorem exists_of_ask {proven : Bool} (returned : (kb.ask text).Returns (.ok (proven, after))) :
    ∃ formula clauses setup order refutation, SurfaceFormula.parse text = .ok formula ∧
      (clausesOf true [] (formula.lower kb.signature).1.close
        (formula.lower kb.signature).2).clauses = .ok clauses ∧
      ((kb.store.insertAll clauses).refute setup order none
        (clausesOf true [] (formula.lower kb.signature).1.close
          (formula.lower kb.signature).2).signature).Returns (.ok refutation, after.signature) ∧
      after.store = kb.store ∧ proven = decide (refutation.status = .refuted) := by
  obtain ⟨formula, clauses, start, refutation, parsed, made, refuted, provenEq⟩ :=
    exists_refute_of_ask returned
  obtain ⟨begun, order, storeRefuted, store⟩ := exists_of_refute refuted
  exact ⟨formula, clauses, _, order, refutation, parsed, made, storeRefuted, store, provenEq⟩

/-- Asking for the answers to a query refutes the store with the clauses that
search for them. -/
theorem exists_refute_of_askBindings {answers : Answers}
    (returned : (kb.askBindings text).Returns (.ok (answers, after))) :
    ∃ formula clauses start refutation,
      let lowered := formula.lower kb.signature
      let answer := lowered.2.internPredicate answerName lowered.1.free.length
      let clausified := answerClauses answer.1 lowered.1 answer.2
      SurfaceFormula.parse text = .ok formula ∧ clausified.clauses = .ok clauses ∧
      (kb.refute start .all (some ⟨answer.1, .start (lowered.1.free.map Prod.fst)⟩)
        (kb.store.insertAll clauses) clausified.signature).Returns (.ok (refutation, after)) ∧
      refutation.answers = some answers := by
  simp only [askBindings, returns_bind, returns_clock, true_and] at returned
  obtain ⟨start, returned⟩ := returned
  cases parsed : SurfaceFormula.parse text with
  | error error =>
      rw [parsed] at returned
      cases returned
  | ok formula =>
      simp only [parsed, returns_bind, returns_tellAll, true_and, exists_const] at returned
      split at returned
      · cases returned
      · rename_i clauses made
        simp only [returns_bind] at returned
        obtain ⟨result, refuted, returned⟩ := returned
        cases result with
        | error error => cases returned
        | ok entry =>
            obtain ⟨refutation, later⟩ := entry
            simp only at returned
            split at returned
            · cases returned
            · rename_i found answered
              simp only [returns_bind, returns_tell, true_and, exists_const,
                returns_pure] at returned
              cases returned
              exact ⟨formula, clauses, start, refutation, rfl, made, refuted, answered⟩

/-- What asking for the answers to a query does. -/
theorem exists_of_askBindings {answers : Answers}
    (returned : (kb.askBindings text).Returns (.ok (answers, after))) :
    ∃ formula clauses begun order refutation,
      let lowered := formula.lower kb.signature
      let answer := lowered.2.internPredicate answerName lowered.1.free.length
      let clausified := answerClauses answer.1 lowered.1 answer.2
      SurfaceFormula.parse text = .ok formula ∧ clausified.clauses = .ok clauses ∧
      ((kb.store.insertAll clauses).refute ⟨kb.config, .all, begun⟩ order
        (some ⟨answer.1, .start (lowered.1.free.map Prod.fst)⟩) clausified.signature).Returns
          (.ok refutation, after.signature) ∧
      after.store = kb.store ∧ refutation.answers = some answers := by
  obtain ⟨formula, clauses, start, refutation, parsed, made, refuted, answered⟩ :=
    exists_refute_of_askBindings returned
  obtain ⟨begun, order, storeRefuted, store⟩ := exists_of_refute refuted
  exact ⟨formula, clauses, begun, order, refutation, parsed, made, storeRefuted, store, answered⟩

end KnowledgeBase

/-! ## The closed query -/

/-- The binders that close a formula stand around its atoms. -/
theorem everyAtom_foldr_quantified {property : List Variable → Atom → Prop}
    {formula : Formula Variable Atom} (vars bound : List Variable)
    (every : formula.EveryAtom property (vars.reverse ++ bound)) :
    (vars.foldr (fun v body => .quantified .universal v body) formula).EveryAtom property
      bound := by
  induction vars generalizing bound with
  | nil => exact every
  | cons v rest ih =>
      refine ih (v :: bound) ?_
      simpa using every

/-- A closed formula that is true is true for all values of the variables that
close it. -/
theorem holds_of_foldr_quantified {D : Type u} {M : Model D} {formula : Formula Variable Atom}
    {vars : List Variable} {ρ : Variable → D}
    (holds : formulaHolds M ρ (vars.foldr (fun v body => .quantified .universal v body) formula))
    {τ : Variable → D} (same : ∀ w, w ∉ vars → τ w = ρ w) : formulaHolds M τ formula := by
  induction vars generalizing ρ with
  | nil =>
      have equal : τ = ρ := funext fun w => same w (by simp)
      exact equal ▸ holds
  | cons v rest ih =>
      refine ih (holds (τ v)) fun w absent => ?_
      by_cases isIt : w = v
      · rw [isIt, Function.update_self]
      · rw [Function.update_of_ne isIt]
        exact same w (by simp [isIt, absent])

/-- Closing a lowered formula binds all its variables. -/
theorem Lowered.everyAtom_close {signature : Signature} {lowered : Lowered}
    (atoms : lowered.formula.EveryAtom (Atom.IsWritten signature lowered.freeVariables) []) :
    lowered.close.EveryAtom (Atom.IsScoped signature []) [] := by
  refine everyAtom_foldr_quantified lowered.freeVariables [] ?_
  refine atoms.rebase fun binders a written => ⟨written.isOver, fun t tMem v vMem => .inl ?_⟩
  rcases written.inScope t tMem v vMem with isBound | isFree
  · simp only [List.append_nil] at isBound
    simp [isBound]
  · simp [isFree]

/-- A closed formula is true when the formula is true under all valuations. -/
theorem Lowered.holds_of_close {D : Type u} {M : Model D} {signature : Signature}
    {lowered : Lowered}
    (atoms : lowered.formula.EveryAtom (Atom.IsWritten signature lowered.freeVariables) [])
    {ρ : Variable → D} (holds : formulaHolds M ρ lowered.close) (τ : Variable → D) :
    formulaHolds M τ lowered.formula := by
  classical
  have mixed : formulaHolds M (fun w => if w ∈ lowered.freeVariables then τ w else ρ w)
      lowered.formula :=
    holds_of_foldr_quantified holds fun w absent => if_neg absent
  refine (formulaHolds_iff_of_scoped (fun _ _ written => written.toIsScoped) atoms (.refl _ M)
    fun w scope => ?_).mp mixed
  exact if_pos (by simpa using scope)

namespace KnowledgeBase

variable {told : List SurfaceFormula} {text : String} {kb : KnowledgeBase}

/-- Asking keeps a knowledge base sound, and a query that is proven follows from
what the knowledge base was told. -/
theorem IsSound.ask {after : KnowledgeBase} {proven : Bool} (sound : IsSound.{u} told kb)
    (returned : (kb.ask text).Returns (.ok (proven, after))) :
    IsSound.{u} told after ∧ ∃ query, SurfaceFormula.parse text = .ok query ∧
      (proven = true → ∀ ⦃D : Type u⦄ (N : Structure String String D),
        (∀ formula ∈ told, N.SatisfiesClosure formula) → N.SatisfiesClosure query) := by
  obtain ⟨query, clauses, setup, order, refutation, parsed, made, refuted, store, provenEq⟩ :=
    exists_of_ask returned
  have lowered :=
    SurfaceFormula.lower_means.{u} kb.signature (SurfaceFormula.isNamed_of_parse parsed)
  have gains := lowered.gains
  obtain ⟨normal, disjunctions, others, -, normalHolds, othersMade, clausifies⟩ :=
    clausesOf_spec.{u} (fun _ _ isScoped => isScoped) (gains.canonical sound.hasCanonical)
      (by simp) true (Lowered.everyAtom_close lowered.atoms)
  obtain rfl : others = clauses := Except.ok.inj (othersMade.symm.trans made)
  have ready := sound.isReady gains clausifies.gains clausifies.isOver
  obtain ⟨searched, unsatisfiable⟩ :=
    Store.refute_sound.{u} ready.consistent ready.isOver ready.hasCanonical refuted
  refine ⟨sound.grow (ready.grows.trans searched.grows) (searched.hasCanonical ready.hasCanonical)
    store, query, parsed, fun isProven D N satisfied => ?_⟩
  rw [provenEq, decide_eq_true_eq] at isProven
  by_contra notSatisfied
  obtain ⟨M, reads, isModel⟩ := sound.model N satisfied
  have reads₁ := reads.extend gains.grows
  have agree₁ := M.extend_agreesOn N kb.signature (query.lower kb.signature).2
  -- The negated query is true in the model, so its clauses have a model as well.
  obtain ⟨M', agree', newClauses⟩ := clausifies.model
    (M.extend N kb.signature (query.lower kb.signature).2) fun ρ =>
      (normalHolds _ ρ).mpr fun closeHolds => notSatisfied
        ((lowered.satisfiesClosure_iff reads₁).mpr
          (Lowered.holds_of_close lowered.atoms closeHolds))
  refine unsatisfiable refutation rfl isProven M' fun c mem => ?_
  rcases (ready.mem_iff c).mp mem with isNew | old
  · exact newClauses c isNew
  · have agree := (agree'.of_growsTo gains.grows).trans agree₁
    exact ((sound.isOver c old).satisfies_iff agree).mpr (isModel c old)

/-! ## Asking for answers -/

theorem IsSound.isReady_answerClauses (sound : IsSound.{u} told kb) {query : SurfaceFormula}
    (parsed : SurfaceFormula.parse text = .ok query) {answer : PredicateSymbol}
    {signature : Signature}
    (gains : GainsAnswer (query.lower kb.signature).1.free.length (query.lower kb.signature).2
      answer signature) {clauses : List Clause}
    (made : (answerClauses answer (query.lower kb.signature).1 signature).clauses = .ok clauses) :
    kb.IsReady clauses (answerClauses answer (query.lower kb.signature).1 signature).signature := by
  have lowered :=
    SurfaceFormula.lower_means.{u} kb.signature (SurfaceFormula.isNamed_of_parse parsed)
  obtain ⟨ruleClauses, goalClauses, clausesMade, answerRule⟩ :=
    exists_answerRule.{u} sound.hasCanonical lowered gains
  obtain rfl : ruleClauses ++ goalClauses = clauses :=
    Except.ok.inj (clausesMade.symm.trans made)
  exact sound.isReady (lowered.gains.trans gains.gains) answerRule.gains answerRule.isOver

/-- Asking for answers keeps a knowledge base sound. -/
theorem IsSound.askBindings {told : List SurfaceFormula} {text : String} {kb after : KnowledgeBase}
    {answers : Answers} (sound : IsSound.{u} told kb)
    (returned : (kb.askBindings text).Returns (.ok (answers, after))) :
    IsSound.{u} told after := by
  obtain ⟨query, clauses, start, order, refutation, parsed, made, refuted, store, -⟩ :=
    exists_of_askBindings returned
  have ready := sound.isReady_answerClauses parsed (gainsAnswer_internPredicate ..) made
  obtain ⟨searched, -⟩ :=
    Store.refute_sound.{u} ready.consistent ready.isOver ready.hasCanonical refuted
  exact sound.grow (ready.grows.trans searched.grows) (searched.hasCanonical ready.hasCanonical)
    store

end KnowledgeBase

end Entailment.FirstOrder
