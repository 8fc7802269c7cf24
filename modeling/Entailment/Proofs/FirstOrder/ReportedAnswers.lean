import Entailment.Proofs.FirstOrder.AnswerSearch
import Entailment.Proofs.FirstOrder.Conversation
import Entailment.Proofs.Runs

/-!
# Reported answers are answers

A model of the store of a knowledge base becomes a model of the rule of a query
when the answer predicate is made true of the values for which the query holds.
The answer predicate has no written name, so nothing else changes.  An answer
that is reported is derived from the store and the rule, without the goal.  It
mentions no Skolem function of the query, so that its terms have the values in
the new model that they have in the given one.
-/

namespace Entailment.FirstOrder

open Monitored

universe u

variable {D : Type u}

/-! ## Changing a predicate -/

/-- The same structure with another interpretation of one predicate. -/
def Structure.withPredicate (M : Model D) (p : PredicateSymbol) (relation : List D → Prop) :
    Model D where
  function := M.function
  predicate := Function.update M.predicate p relation

namespace Structure

variable {M : Model D} {p : PredicateSymbol} {relation : List D → Prop}

@[simp]
theorem predicate_withPredicate_self : (M.withPredicate p relation).predicate p = relation :=
  Function.update_self ..

theorem predicate_withPredicate_of_ne {q : PredicateSymbol} (different : q ≠ p) :
    (M.withPredicate p relation).predicate q = M.predicate q :=
  Function.update_of_ne different ..

theorem value_withPredicate (ρ : Variable → D) (t : Term) :
    t.value (M.withPredicate p relation) ρ = t.value M ρ := by
  induction t with
  | var v => rfl
  | app f args ih =>
      rw [Term.value_app, Term.value_app, List.map_congr_left ih]
      rfl

theorem holds_withPredicate {a : Atom} (different : a.predicate ≠ p) (ρ : Variable → D) :
    a.Holds (M.withPredicate p relation) ρ ↔ a.Holds M ρ := by
  have values : a.args.map (Term.value (M.withPredicate p relation) ρ) =
      a.args.map (Term.value M ρ) :=
    List.map_congr_left fun t _ => value_withPredicate ρ t
  rw [Atom.Holds, Atom.Holds, values, predicate_withPredicate_of_ne different]

/-- A clause without the predicate is satisfied as before. -/
theorem satisfies_withPredicate {c : Clause}
    (different : ∀ literal ∈ c.literals, literal.atom.predicate ≠ p) (satisfied : M.Satisfies c) :
    (M.withPredicate p relation).Satisfies c := by
  intro ρ
  obtain ⟨literal, mem, holds⟩ := satisfied ρ
  refine ⟨literal, mem, ?_⟩
  have same := @holds_withPredicate _ M p relation _ (different literal mem) ρ
  obtain ⟨a, sign⟩ := literal
  cases sign with
  | positive => exact same.mpr holds
  | negative => exact mt same.mp holds

/-- A formula without the predicate is true in the same cases. -/
theorem formulaHolds_withPredicate {formula : Formula Variable Atom} {bound : List Variable}
    (different : formula.EveryAtom (fun _ a => a.predicate ≠ p) bound) (ρ : Variable → D) :
    formulaHolds (M.withPredicate p relation) ρ formula ↔ formulaHolds M ρ formula :=
  Formula.holds_congr (fun _ ρ ρ' => ρ = ρ')
    (fun _ a ρ ρ' notIt same => by
      subst same
      exact holds_withPredicate notIt ρ)
    (fun _ ρ ρ' binder d same => by rw [same]) different rfl

end Structure

/-- Terms whose function symbols are those of a signature have the same values in
models that agree on it, whatever variables they have. -/
theorem Term.FunctionsBelow.value_eq {signature : Signature} {M N : Model D}
    (agree : M.AgreesOn signature N) (ρ : Variable → D) {t : Term}
    (below : t.FunctionsBelow signature.functions.size) : t.value M ρ = t.value N ρ := by
  induction t with
  | var v => rfl
  | app f args ih =>
      rw [value_app, value_app, agree.function f (below f args .here)]
      refine congrArg _ (List.map_congr_left fun t mem => ih t mem ?_)
      intro g ss occurs
      exact below g ss (.inside mem occurs)

/-! ## Models of the rule -/

/-- A model satisfies the universal closure of a lowered formula with terms put in
for its free variables: the formula is true wherever its free variables have the
values of the terms. -/
def Structure.SatisfiesAt (M : Model D) (lowered : Lowered) (terms : List Term) : Prop :=
  ∀ ρ τ, lowered.freeVariables.map τ = terms.map (Term.value M ρ) →
    formulaHolds M τ lowered.formula

namespace KnowledgeBase

variable {kb : KnowledgeBase} {told : List SurfaceFormula} {signature : Signature}
    {answer : PredicateSymbol}

/-- The values of the free variables for which a query holds. -/
def answerRelation (M : Model D) (lowered : Lowered) (values : List D) : Prop :=
  ∃ τ, lowered.freeVariables.map τ = values ∧ formulaHolds M τ lowered.formula

/-- The clauses of a knowledge base do not mention the answer predicate. -/
theorem IsSound.ne_answer (sound : IsSound.{u} told kb) {middle : Signature} {arity : Nat}
    (grows : kb.signature.GrowsTo middle) (gains : GainsAnswer arity middle answer signature)
    {c : Clause} (mem : c ∈ kb.store) {literal : Literal Atom} (literalMem : literal ∈ c.literals) :
    literal.atom.predicate ≠ answer := by
  have bound := (sound.isOver c mem literal literalMem).bound
  refine gains.ne_of_isPlain (Nat.lt_of_lt_of_le bound grows.predicatesSize) ?_
  rw [grows.predicateInfo bound]
  exact sound.plain c mem literal literalMem

/-- An answer that follows from a store and the rule of a query is one: the query
holds at it in every model of the store. -/
theorem satisfiesAt_of_isAnswer (sound : IsSound.{u} told kb) {query : SurfaceFormula}
    (means : Lowered.Means.{u} kb.signature (query.lower kb.signature).2 query (query.lower
      kb.signature).1) {extended : Signature}
    (gains : GainsAnswer (query.lower kb.signature).1.free.length (query.lower kb.signature).2
      answer signature) {ruleClauses goalClauses : List Clause}
    (rule : AnswerRule.{u} answer (query.lower kb.signature).1 signature extended ruleClauses
      goalClauses) {filter : AnswerFilter} {terms : List Term}
    (isAnswer : IsAnswer.{u} (kb.store.insertAll ruleClauses) answer signature.functions.size filter
      terms) (M : Model D) (isModel : M.IsModelOf kb.store) :
    M.SatisfiesAt (query.lower kb.signature).1 terms := by
  have notAnswer : (query.lower kb.signature).1.formula.EveryAtom
      (fun _ a => a.predicate ≠ answer) [] :=
    means.atoms.imp fun _ a written => gains.ne_of_isPlain written.isOver.bound written.plain
  let M₁ := M.withPredicate answer (answerRelation M (query.lower kb.signature).1)
  have ruleHolds (ρ : Variable → D)
      (holds : formulaHolds M₁ ρ (query.lower kb.signature).1.formula) :
      (answerAtom answer (query.lower kb.signature).1).Holds M₁ ρ := by
    rw [Structure.formulaHolds_withPredicate notAnswer] at holds
    have collected : answerRelation M (query.lower kb.signature).1
        ((query.lower kb.signature).1.freeVariables.map ρ) := ⟨ρ, rfl, holds⟩
    simpa [Atom.Holds, M₁, Function.comp_def] using collected
  obtain ⟨M', agree, ruleSatisfied⟩ := rule.model M₁ ruleHolds
  have isModel' : M'.IsModelOf (kb.store.insertAll ruleClauses) := by
    intro c mem
    rcases ((sound.consistent.insertAll ruleClauses).2 c).mp mem with isRule | old
    · exact ruleSatisfied c isRule
    · have grows := means.gains.grows.trans gains.gains.grows
      refine (((sound.isOver c old).mono grows).satisfies_iff agree).mpr ?_
      exact Structure.satisfies_withPredicate
        (fun _ literalMem => sound.ne_answer means.gains.grows gains old literalMem)
        (isModel c old)
  intro ρ τ values
  have holds : M'.predicate answer (terms.map (Term.value M' ρ)) := isAnswer.holds M' isModel' ρ
  have sameValues : terms.map (Term.value M' ρ) = terms.map (Term.value M ρ) :=
    List.map_congr_left fun t mem =>
      ((isAnswer.functionsBelow t mem).value_eq agree ρ).trans (Structure.value_withPredicate ρ t)
  rw [agree.predicate answer gains.bound, sameValues] at holds
  obtain ⟨τ', sameAt, holds⟩ : answerRelation M (query.lower kb.signature).1
      (terms.map (Term.value M ρ)) := by
    simpa [M₁] using holds
  have same := List.map_inj_left.mp (sameAt.trans values.symm)
  refine (formulaHolds_iff_of_scoped (fun _ _ written => written.toIsScoped) means.atoms
    (.refl _ M) fun w scope => ?_).mp holds
  exact same w (by simpa using scope)

/-- The store with the clauses of a query is ready to be searched for answers. -/
theorem IsSound.before (sound : IsSound.{u} told kb) {lowered : Lowered}
    {middle extended : Signature} {arity : Nat} (grows : kb.signature.GrowsTo middle)
    (gains : GainsAnswer arity middle answer signature) {ruleClauses goalClauses : List Clause}
    (rule : AnswerRule.{u} answer lowered signature extended ruleClauses goalClauses) :
    ∀ c ∈ kb.store.insertAll (ruleClauses ++ goalClauses),
      AnswerSearch.Before.{u} (kb.store.insertAll ruleClauses) answer signature.functions.size
        lowered.freeVariables.length extended c := by
  intro c mem
  have inRules := (sound.consistent.insertAll ruleClauses).2
  have kbGrows := grows.trans gains.gains.grows
  rcases ((sound.consistent.insertAll _).2 c).mp mem with isNew | old
  · rcases List.mem_append.mp isNew with isRule | isGoal
    · exact .inl ⟨rule.isOver c isNew, fun D M isModel => isModel c ((inRules c).mpr (.inl isRule)),
        rule.rule c isRule⟩
    · exact .inr ⟨rule.isOver c isNew, rule.goal c isGoal⟩
  · have isOver := (sound.isOver c old).mono kbGrows
    exact .inl ⟨isOver.mono rule.gains.grows,
      fun D M isModel => isModel c ((inRules c).mpr (.inr old)),
      isOver.tied (fun _ literalMem => sound.ne_answer grows gains old literalMem) _⟩

/-- What a knowledge base reports for a query are printed answers, which follow from
the store and the rule of the query. -/
theorem IsSound.exists_of_askBindings {after : KnowledgeBase} (sound : IsSound.{u} told kb)
    {text : String} {answers : Answers}
    (returned : (kb.askBindings text).Returns (.ok (answers, after))) :
    ∃ query answer signature extended ruleClauses goalClauses,
      SurfaceFormula.parse text = .ok query ∧
      GainsAnswer (query.lower kb.signature).1.free.length (query.lower kb.signature).2 answer
        signature ∧
      AnswerRule.{u} answer (query.lower kb.signature).1 signature extended ruleClauses
        goalClauses ∧
      extended.GainsVariables after.signature ∧
      answers.vars = (query.lower kb.signature).1.free.map Prod.fst ∧
      ∀ tuple ∈ answers.tuples,
        (AnswerSearch.promise.{u} (kb.store.insertAll ruleClauses) answer
          signature.functions.size kb.config.answerFilter).answer after.signature tuple := by
  obtain ⟨query, clauses, start, order, refutation, parsed, made, refuted, -, answered⟩ :=
    KnowledgeBase.exists_of_askBindings returned
  have means :=
    SurfaceFormula.lower_means.{u} kb.signature (SurfaceFormula.isNamed_of_parse parsed)
  have gains := gainsAnswer_internPredicate (query.lower kb.signature).1.free.length
    (query.lower kb.signature).2
  obtain ⟨ruleClauses, goalClauses, clausesMade, rule⟩ :=
    exists_answerRule.{u} sound.hasCanonical means gains
  obtain rfl : ruleClauses ++ goalClauses = clauses :=
    Except.ok.inj (clausesMade.symm.trans made)
  have has := gains.gains.canonical (means.gains.canonical sound.hasCanonical)
  obtain ⟨searched, vars, printed⟩ :=
    Store.refute_answers.{u} (sound.consistent.insertAll _).1 (rule.gains.canonical has)
      (sound.before means.gains.grows gains rule) refuted answered
  exact ⟨query, _, _, _, ruleClauses, goalClauses, parsed, gains, rule, searched, vars, printed⟩

end KnowledgeBase

/-- The query with the values of the terms for its variables, read in a structure
for names. -/
theorem Structure.SatisfiesAt.holds {M : Model D} {signature extended : Signature}
    {query : SurfaceFormula} {lowered : Lowered} {terms : List Term}
    (satisfied : M.SatisfiesAt lowered terms)
    (means : Lowered.Means.{u} signature extended query lowered) {N : Structure String String D}
    (reads : M.Reads extended N) {ρ : Variable → D} {names : String → D}
    (values : (lowered.free.map Prod.fst).map names = terms.map (Term.value M ρ)) :
    query.Holds N names := by
  obtain ⟨τ, same⟩ := Lowering.exists_valuation_of_names means.nodup names
  refine (means.holds N M reads names τ (Lowering.agree_of_forall same)).mp (satisfied ρ τ ?_)
  rw [← values, Lowered.freeVariables, List.map_map, List.map_map]
  exact List.map_congr_left same

/-- Whatever the settings are and whatever has been asked before: each tuple that
is reported for a query is the printing of as many terms as the query has free
variables.  They pass the filter, they mention no Skolem function of the query,
and every model of the store satisfies the universal closure of the query with the
terms put in for its free variables. -/
theorem satisfiesAt_of_askBindings (config : Config) (requests : List Request)
    {conversation : Conversation}
    (reached : (Conversation.answerAll requests (.start config)).Returns conversation)
    {text : String} {answers : Answers} {after : KnowledgeBase}
    (returned : (conversation.kb.askBindings text).Returns (.ok (answers, after))) :
    ∃ query, SurfaceFormula.parse text = .ok query ∧
      answers.vars = (query.lower conversation.kb.signature).1.free.map Prod.fst ∧
      ∀ tuple ∈ answers.tuples, ∃ terms : List Term,
        tuple = terms.map after.signature.renderTerm ∧
        terms.length = answers.vars.length ∧
        (∀ t ∈ terms, t.IsOver after.signature ∧
          t.FunctionsBelow (query.lower conversation.kb.signature).2.functions.size) ∧
        conversation.kb.config.answerFilter.accepts terms = true ∧
        ∀ ⦃D : Type u⦄ (M : Model D), M.IsModelOf conversation.kb.store →
          M.SatisfiesAt (query.lower conversation.kb.signature).1 terms ∧
          ∀ N, M.Reads (query.lower conversation.kb.signature).2 N → ∀ ρ names,
            answers.vars.map names = terms.map (Term.value M ρ) → query.Holds N names := by
  have sound := Conversation.isSound_answerAll (KnowledgeBase.isSound_empty.{u} config) reached
  obtain ⟨query, answer, signature, extended, ruleClauses, goalClauses, parsed, gains, rule,
    searched, vars, printed⟩ := sound.exists_of_askBindings returned
  have means := SurfaceFormula.lower_means.{u} conversation.kb.signature
    (SurfaceFormula.isNamed_of_parse parsed)
  refine ⟨query, parsed, vars, fun tuple mem => ?_⟩
  obtain ⟨terms, isAnswer, isOver, rfl⟩ := printed tuple mem
  refine ⟨terms, rfl, ?_, fun t tMem => ⟨isOver.isOver t tMem, ?_⟩, isAnswer.accepted, ?_⟩
  · have grows := rule.gains.grows.trans searched.grows
    have length : terms.length = (after.signature.predicateInfo answer).arity := isOver.arity
    rw [length, grows.predicateInfo gains.bound, gains.arity, vars, List.length_map]
  · rw [← gains.functions]
    exact isAnswer.functionsBelow t tMem
  · intro D M isModel
    have satisfied :=
      KnowledgeBase.satisfiesAt_of_isAnswer sound means gains rule isAnswer M isModel
    refine ⟨satisfied, fun N reads ρ names values => ?_⟩
    rw [vars] at values
    exact satisfied.holds means reads values

/-- The rule of this query has a Skolem function of the free variable.  The fact is
told for every second argument, so the constant is an answer, and the function is
not. -/
theorem satisfiesAt_of_askBindings_universal :
    ∃ conversation answers after,
      (Conversation.answerAll [.tell "p(a, ?y)", .tell "p(b, b)"] (.start .default)).Returns
        conversation ∧
      (conversation.kb.askBindings "!A ?y p(?x, ?y)").Returns (.ok (answers, after)) ∧
      answers = ⟨["x"], [["a"]]⟩ ∧
      ∃ query, SurfaceFormula.parse "!A ?y p(?x, ?y)" = .ok query ∧
        answers.vars = (query.lower conversation.kb.signature).1.free.map Prod.fst ∧
        ∀ tuple ∈ answers.tuples, ∃ terms : List Term,
          tuple = terms.map after.signature.renderTerm ∧
          terms.length = answers.vars.length ∧
          (∀ t ∈ terms, t.IsOver after.signature ∧
            t.FunctionsBelow (query.lower conversation.kb.signature).2.functions.size) ∧
          conversation.kb.config.answerFilter.accepts terms = true ∧
          ∀ ⦃D : Type⦄ (M : Model D), M.IsModelOf conversation.kb.store →
            M.SatisfiesAt (query.lower conversation.kb.signature).1 terms ∧
            ∀ N, M.Reads (query.lower conversation.kb.signature).2 N → ∀ ρ names,
              answers.vars.map names = terms.map (Term.value M ρ) → query.Holds N names := by
  obtain ⟨conversation, done, reached⟩ := exists_run
    (Conversation.answerAll [.tell "p(a, ?y)", .tell "p(b, b)"] (.start .default))
  have run : ((conversation.kb.askBindings "!A ?y p(?x, ?y)").run .zero none).1.toOption.map
      Prod.fst = some ⟨["x"], [["a"]]⟩ := by
    rw [← done]
    cbv
  obtain ⟨⟨answers, after⟩, asked, isTable⟩ := exists_run_ok Prod.fst run
  exact ⟨conversation, answers, after, reached, asked, isTable,
    satisfiesAt_of_askBindings .default _ reached asked⟩

end Entailment.FirstOrder
