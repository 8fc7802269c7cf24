import Entailment.Proofs.FirstOrder.ConjunctiveQuery
import Entailment.Proofs.FirstOrder.FactSearch
import Entailment.Proofs.FirstOrder.OrderlyConversation
import Entailment.Proofs.FirstOrder.ReportedAnswers
import Entailment.Proofs.Runs

/-!
# The answers to conjunctive queries over facts

The facts of a store are true in the model whose values are the terms and in which an
atom is true when it is a fact.  So an answer that is reported for a conjunction of
atoms makes facts of all of them.  Conversely the rule of the query leads to every
tuple that does, and a search that is not cut short collects all answers that its
rules lead to.
-/

namespace Entailment.FirstOrder

open Monitored

/-! ## Stores of facts -/

/-- Whether a clause is a ground positive literal. -/
def Clause.isGroundFact (c : Clause) : Bool :=
  match c.literals with
  | [⟨a, .positive⟩] => a.isGround
  | _ => false

theorem Clause.isGroundFact_iff {c : Clause} :
    c.isGroundFact = true ↔ ∃ a : Atom, a.isGround = true ∧ c = .fact a := by
  constructor
  · intro isFact
    unfold isGroundFact at isFact
    split at isFact
    · rename_i a single
      refine ⟨a, isFact, ?_⟩
      rw [fact, Literal.positive, ← single]
    · cases isFact
  · rintro ⟨a, ground, rfl⟩
    exact ground

namespace Store

/-- All clauses of a store are ground positive literals. -/
def HoldsFacts (store : Store) : Prop :=
  ∀ c ∈ store, ∃ a : Atom, a.isGround = true ∧ c = .fact a

theorem holdsFacts_iff {store : Store} :
    store.HoldsFacts ↔
      (store.slots.toList.all fun slot => slot.all Clause.isGroundFact) = true := by
  simp only [HoldsFacts, ← Clause.isGroundFact_iff, List.all_eq_true, Option.all_eq_true]
  constructor
  · intro facts slot slotMem c isSlot
    obtain ⟨id, found⟩ := List.mem_iff_getElem?.mp slotMem
    rw [Array.getElem?_toList] at found
    refine facts c ⟨id, ?_⟩
    rw [get?, found, isSlot]
    rfl
  · rintro facts c ⟨id, found⟩
    have atSlot : store.slots[id]? = some (some c) := Option.join_eq_some_iff.mp found
    rw [← Array.getElem?_toList] at atSlot
    exact facts _ (List.mem_of_getElem? atSlot) c rfl

instance (store : Store) : Decidable store.HoldsFacts := decidable_of_iff _ holdsFacts_iff.symm

/-- Ground terms that make facts of all atoms of a query when they are put in for its
free variables. -/
def Matches (store : Store) (lowered : Lowered) (terms : List Term) : Prop :=
  (∀ t ∈ terms, t.isGround = true) ∧
    ∃ image : Variable → Term, lowered.freeVariables.map image = terms ∧
      ∀ a ∈ lowered.formula.atoms, Clause.fact (a.replace image) ∈ store

/-- The model of the terms in which the atoms that are facts are true. -/
def herbrand (store : Store) : Model Term where
  function f args := .app f args
  predicate p args := Clause.fact ⟨p, args⟩ ∈ store

variable {store : Store}

theorem value_herbrand (ρ : Variable → Term) (t : Term) :
    t.value store.herbrand ρ = t.replace ρ := by
  induction t with
  | var v => rfl
  | app f args ih =>
      rw [Term.value_app, Term.replace_app, List.map_congr_left ih]
      rfl

theorem holds_herbrand {ρ : Variable → Term} {a : Atom} :
    a.Holds store.herbrand ρ ↔ Clause.fact (a.replace ρ) ∈ store := by
  have values : a.args.map (Term.value store.herbrand ρ) = a.args.map (Term.replace ρ) :=
    List.map_congr_left fun t _ => value_herbrand ρ t
  rw [Atom.Holds, values]
  rfl

theorem HoldsFacts.isGround (facts : store.HoldsFacts) {a : Atom}
    (mem : Clause.fact a ∈ store) : a.isGround = true := by
  obtain ⟨b, ground, same⟩ := facts _ mem
  cases same
  exact ground

theorem HoldsFacts.isModelOf_herbrand (facts : store.HoldsFacts) :
    store.herbrand.IsModelOf store := by
  intro c mem ρ
  obtain ⟨a, ground, rfl⟩ := facts c mem
  refine ⟨.positive a, List.mem_singleton.mpr rfl, ?_⟩
  have isFact : Clause.fact (a.replace ρ) ∈ store := by
    rw [Atom.replace_of_isGround ground]
    exact mem
  exact holds_herbrand.mpr isFact

end Store

/-- Terms can be put in for as many different variables. -/
theorem exists_image {vars : List Variable} (nodup : vars.Nodup) {terms : List Term}
    (sameLength : terms.length = vars.length) :
    ∃ image : Variable → Term, vars.map image = terms := by
  induction vars generalizing terms with
  | nil => exact ⟨.var, (List.length_eq_zero_iff.mp sameLength).symm⟩
  | cons v rest ih =>
      obtain ⟨t, others, rfl⟩ := List.exists_cons_of_length_eq_add_one sameLength
      obtain ⟨notMem, nodup⟩ := List.nodup_cons.mp nodup
      obtain ⟨image, rfl⟩ := ih nodup (Nat.succ.inj sameLength)
      refine ⟨Function.update image v t, ?_⟩
      rw [List.map_cons, Function.update_self]
      refine congrArg _ (List.map_congr_left fun w mem => Function.update_of_ne ?_ ..)
      rintro rfl
      exact notMem mem

namespace KnowledgeBase

variable {told : List SurfaceFormula} {kb : KnowledgeBase} {query : SurfaceFormula}
variable {text : String}

/-- Values that make facts of all atoms of a query are ground, and they are terms of
the knowledge base. -/
theorem IsSound.of_facts (sound : IsSound.{0} told kb) (facts : kb.store.HoldsFacts)
    {image : Variable → Term}
    (areFacts : ∀ a ∈ (query.lower kb.signature).1.formula.atoms,
      Clause.fact (a.replace image) ∈ kb.store)
    {v : Variable} (mem : v ∈ (query.lower kb.signature).1.freeVariables) :
    (image v).isGround = true ∧ (image v).IsOver kb.signature := by
  obtain ⟨a, aMem, inAtom⟩ := SurfaceFormula.exists_mem_vars_lower mem
  have isFact := areFacts a aMem
  refine ⟨Atom.isGround_of_isGround_replace (facts.isGround isFact) inAtom, ?_⟩
  obtain ⟨t, tMem, inTerm⟩ := Atom.exists_of_mem_vars inAtom
  have isOver := sound.isOver _ isFact (.positive (a.replace image)) (List.mem_singleton.mpr rfl)
  exact Term.isOver_of_isOver_replace (isOver.isOver _ (List.mem_map_of_mem tMem)) inTerm

/-- The terms of a match are printed as they are in a signature that has grown. -/
theorem IsSound.renderTerm_of_matches (sound : IsSound.{0} told kb) (facts : kb.store.HoldsFacts)
    {terms : List Term} (isMatch : kb.store.Matches (query.lower kb.signature).1 terms)
    {extended : Signature} (grows : kb.signature.GrowsTo extended) :
    terms.map extended.renderTerm = terms.map kb.signature.renderTerm := by
  obtain ⟨-, image, rfl, areFacts⟩ := isMatch
  refine List.map_congr_left fun t mem => ?_
  obtain ⟨v, vMem, rfl⟩ := List.mem_map.mp mem
  exact grows.renderTerm (sound.of_facts facts areFacts vMem).2

/-! ## Every reported tuple matches -/

/-- A tuple that is reported for a conjunction of atoms makes facts of all of
them. -/
theorem IsSound.exists_matches_of_askBindings (sound : IsSound.{0} told kb)
    (facts : kb.store.HoldsFacts) (parsed : SurfaceFormula.parse text = .ok query)
    (conjunction : query.isConjunction = true) {answers : Answers} {after : KnowledgeBase}
    (returned : (kb.askBindings text).Returns (.ok (answers, after))) {printed : List String}
    (mem : printed ∈ answers.tuples) :
    ∃ terms, kb.store.Matches (query.lower kb.signature).1 terms ∧
      printed = terms.map kb.signature.renderTerm := by
  obtain ⟨other, answer, signature, extended, ruleClauses, goalClauses, otherParsed, gains, rule,
    searched, -, areAnswers⟩ := sound.exists_of_askBindings returned
  obtain rfl : other = query := Except.ok.inj (otherParsed.symm.trans parsed)
  have means :=
    SurfaceFormula.lower_means.{0} kb.signature (SurfaceFormula.isNamed_of_parse parsed)
  obtain ⟨terms, isAnswer, isOver, rfl⟩ := areAnswers printed mem
  have satisfied :=
    satisfiesAt_of_isAnswer sound means gains rule isAnswer _ facts.isModelOf_herbrand
  have grows := rule.gains.grows.trans searched.grows
  have length : terms.length = (other.lower kb.signature).1.freeVariables.length := by
    have arity : terms.length = (after.signature.predicateInfo answer).arity := isOver.arity
    rw [arity, grows.predicateInfo gains.bound, gains.arity, Lowered.freeVariables,
      List.length_map]
  obtain ⟨image, rfl⟩ := exists_image means.nodup length
  have areFacts (a : Atom) (aMem : a ∈ (other.lower kb.signature).1.formula.atoms) :
      Clause.fact (a.replace image) ∈ kb.store := by
    have values : (other.lower kb.signature).1.freeVariables.map image =
        ((other.lower kb.signature).1.freeVariables.map image).map
          (Term.value kb.store.herbrand .var) := by
      simp [Store.value_herbrand, Term.replace_self]
    have holds := satisfied .var image values
    have isConjunction : (other.lower kb.signature).1.formula.isConjunction = true :=
      (Lowering.isConjunction_lowerFormula ..).trans conjunction
    rw [formulaHolds_iff_of_isConjunction isConjunction] at holds
    exact Store.holds_herbrand.mp (holds a aMem)
  have isMatch : kb.store.Matches (other.lower kb.signature).1
      ((other.lower kb.signature).1.freeVariables.map image) := by
    refine ⟨fun t tMem => ?_, image, rfl, areFacts⟩
    obtain ⟨v, vMem, rfl⟩ := List.mem_map.mp tMem
    exact (sound.of_facts facts areFacts vMem).1
  exact ⟨_, isMatch, sound.renderTerm_of_matches facts isMatch
    (means.gains.grows.trans (gains.gains.grows.trans grows))⟩

/-! ## Every match is reported -/

/-- Asking for the answers to a query that has clauses is refuting the store with
them. -/
theorem askBindings_returns {clauses : List Clause} {answer : PredicateSymbol}
    {signature : Signature} {result : Except Error (Answers × KnowledgeBase)}
    (parsed : SurfaceFormula.parse text = .ok query)
    (interned : (query.lower kb.signature).2.internPredicate answerName (query.lower
      kb.signature).1.free.length = (answer, signature))
    (made : (answerClauses answer (query.lower kb.signature).1 signature).clauses = .ok clauses)
    (returned : (kb.askBindings text).Returns result) :
    ∃ start searched, (kb.refute start .all
        (some ⟨answer, .start ((query.lower kb.signature).1.free.map Prod.fst)⟩)
        (kb.store.insertAll clauses)
        (answerClauses answer (query.lower kb.signature).1 signature).signature).Returns searched ∧
      ∀ refutation answers after, searched = .ok (refutation, after) →
        refutation.answers = some answers → result = .ok (answers, after) := by
  simp only [askBindings, parsed, interned, made, returns_bind, returns_clock, returns_tellAll,
    true_and, exists_const] at returned
  obtain ⟨start, searched, refuted, returned⟩ := returned
  refine ⟨start, searched, refuted, ?_⟩
  rintro refutation answers after rfl answered
  simp only [answered, returns_bind, returns_tell, true_and, exists_const, returns_pure] at returned
  exact returned.symm

/-- The store in which the answers to a conjunctive query over facts are searched for,
over the signature of its clauses. -/
structure IsPrepared (kb : KnowledgeBase) (lowered : Lowered) (answer : PredicateSymbol)
    (signature : Signature) (rule goal : Clause) : Prop
    extends IsReady kb [rule, goal] signature where
  arity : (signature.predicateInfo answer).arity = (lowered.free.map Prod.fst).length
  leads : ∀ (isFact : Atom → Prop) (image : Variable → Term),
    (∀ a ∈ lowered.formula.atoms, isFact (a.replace image)) →
      rule.LeadsTo isFact ⟨answer, lowered.freeVariables.map image⟩
  asks : ∀ image, goal.AsksFor ⟨answer, lowered.freeVariables.map image⟩

/-- A conjunctive query prepares the store for the search. -/
theorem exists_isPrepared (sound : IsSound.{0} told kb) (orderly : kb.IsOrderly)
    (parsed : SurfaceFormula.parse text = .ok query) (conjunction : query.isConjunction = true)
    {answer : PredicateSymbol} {signature : Signature}
    (gains : GainsAnswer (query.lower kb.signature).1.free.length (query.lower kb.signature).2
      answer signature) :
    ∃ rule goal,
      (answerClauses answer (query.lower kb.signature).1 signature).clauses = .ok [rule, goal] ∧
      kb.IsPrepared (query.lower kb.signature).1 answer
        (answerClauses answer (query.lower kb.signature).1 signature).signature rule goal := by
  have means :=
    SurfaceFormula.lower_means.{0} kb.signature (SurfaceFormula.isNamed_of_parse parsed)
  have notAnswer (a : Atom) (mem : a ∈ (query.lower kb.signature).1.formula.atoms) :
      a.predicate ≠ answer := by
    have everywhere : (query.lower kb.signature).1.formula.EveryAtom
        (fun _ a => a.predicate ≠ answer) [] :=
      means.atoms.imp fun _ a written => gains.ne_of_isPlain written.isOver.bound written.plain
    exact everywhere.of_mem_atoms mem
  have properNow := gains.gains.proper (means.gains.proper orderly.proper)
  obtain ⟨rule, goal, made, clauses⟩ := exists_conjunctiveClauses properNow
    ((Lowering.isConjunction_lowerFormula ..).trans conjunction) notAnswer
  obtain ⟨ruleClauses, goalClauses, -, answerRule⟩ :=
    exists_answerRule.{0} sound.hasCanonical means gains
  refine ⟨rule, goal, made, sound.isReady_answerClauses parsed gains made, ?_,
    fun isFact image areFacts => ?_, clauses.asksFor⟩
  · rw [answerRule.gains.grows.predicateInfo gains.bound, gains.arity, List.length_map]
  · exact clauses.leadsTo notAnswer (fun v => SurfaceFormula.exists_mem_vars_lower) areFacts

namespace IsPrepared

variable {lowered : Lowered} {answer : PredicateSymbol} {signature : Signature} {rule goal : Clause}

theorem mem_rule (prepared : kb.IsPrepared lowered answer signature rule goal) :
    rule ∈ kb.store.insertAll [rule, goal] :=
  (prepared.mem_iff rule).mpr (.inl (by simp))

theorem mem_goal (prepared : kb.IsPrepared lowered answer signature rule goal) :
    goal ∈ kb.store.insertAll [rule, goal] :=
  (prepared.mem_iff goal).mpr (.inl (by simp))

/-- No clause of a prepared store is empty. -/
theorem containsEmpty_eq_false (prepared : kb.IsPrepared lowered answer signature rule goal)
    (facts : kb.store.HoldsFacts) : (kb.store.insertAll [rule, goal]).containsEmpty = false := by
  rw [Bool.eq_false_iff]
  intro isThere
  rcases (prepared.mem_iff _).mp (prepared.consistent.contains_iff.mp isThere) with isNew | old
  · rcases List.mem_pair.mp isNew with rfl | rfl
    · obtain ⟨_, leadsAt⟩ := prepared.leads (fun _ => True) .var fun _ _ => trivial
      obtain ⟨a, mem⟩ := leadsAt.conclusion
      cases mem
    · obtain ⟨a, _, single, -⟩ := prepared.asks .var
      cases single
  · obtain ⟨a, -, same⟩ := facts _ old
    cases same

/-- A match is an answer that can be found. -/
theorem hasAnswer (prepared : kb.IsPrepared (query.lower kb.signature).1 answer signature rule goal)
    (sound : IsSound.{0} told kb) (facts : kb.store.HoldsFacts) {filter : AnswerFilter}
    (accepts : ∀ terms : List Term, (∀ t ∈ terms, t.isGround = true) →
      filter.accepts terms = true)
    {terms : List Term} (isMatch : kb.store.Matches (query.lower kb.signature).1 terms) :
    (kb.store.insertAll [rule, goal]).HasAnswer (fun a => Clause.fact a ∈ kb.store) signature
      filter ⟨answer, terms⟩ := by
  obtain ⟨ground, image, rfl, areFacts⟩ := isMatch
  constructor
  · rw [Atom.isGround, Term.areGround_eq, List.all_eq_true]
    exact ground
  · intro t mem
    obtain ⟨v, vMem, rfl⟩ := List.mem_map.mp mem
    exact (sound.of_facts facts areFacts vMem).2.mono prepared.grows
  · exact accepts _ ground
  · exact ⟨rule, prepared.mem_rule, prepared.leads _ image areFacts⟩
  · exact ⟨goal, prepared.mem_goal, prepared.asks image⟩

end IsPrepared

/-- A conjunctive query over facts has a table of answers in which no tuple is listed
twice, and unless the search was cut short all matches are in it. -/
theorem askBindings_collects (sound : IsSound.{0} told kb) (orderly : kb.IsOrderly)
    (facts : kb.store.HoldsFacts) (parsed : SurfaceFormula.parse text = .ok query)
    (conjunction : query.isConjunction = true) (unlimited : kb.config.limits = .unlimited)
    (accepts : ∀ terms : List Term, (∀ t ∈ terms, t.isGround = true) →
      kb.config.answerFilter.accepts terms = true) {result : Except Error (Answers × KnowledgeBase)}
    (returned : (kb.askBindings text).Returns result) :
    ∃ answers after, result = .ok (answers, after) ∧
      answers.vars = (query.lower kb.signature).1.free.map Prod.fst ∧ answers.tuples.Nodup ∧
      (after.statistics.truncated = false → ∀ terms,
        kb.store.Matches (query.lower kb.signature).1 terms →
          terms.map kb.signature.renderTerm ∈ answers.tuples) := by
  have gains := gainsAnswer_internPredicate (query.lower kb.signature).1.free.length
    (query.lower kb.signature).2
  generalize interned : (query.lower kb.signature).2.internPredicate answerName
    (query.lower kb.signature).1.free.length = entry at gains
  obtain ⟨answer, signature⟩ := entry
  obtain ⟨rule, goal, made, prepared⟩ :=
    exists_isPrepared sound orderly parsed conjunction gains
  obtain ⟨start, searched, refuted, isResult⟩ := askBindings_returns parsed interned made returned
  obtain ⟨begun, outcome, extended, storeRefuted, ended⟩ := refute_returns refuted
  have hasGoal : answer ∈ (kb.store.insertAll [rule, goal]).predicates :=
    prepared.consistent.mem_predicates prepared.mem_goal
      ((prepared.asks .var).mentions_iff.mpr rfl)
  obtain ⟨refutation, answers, isOutcome, answered, vars, nodup, collected⟩ :=
    @Store.refute_collects (fun a => Clause.fact a ∈ kb.store) _ _ _ answer _ _ _ _ unlimited rfl
      (prepared.proper orderly.proper) prepared.consistent prepared.isOver
      (prepared.containsEmpty_eq_false facts)
      (Planner.orderFor_spec orderly.faithful _ _).1 hasGoal prepared.arity
      (fun a isFact => ⟨facts.isGround isFact, (prepared.mem_iff _).mpr (.inr isFact)⟩) storeRefuted
  rcases ended with ⟨error, isError, -⟩ | ⟨other, after, isOther, isSearched, carries⟩
  · cases isOutcome.symm.trans isError
  · obtain rfl : refutation = other := Except.ok.inj (isOutcome.symm.trans isOther)
    refine ⟨answers, after, isResult _ _ _ isSearched answered, vars, nodup, ?_⟩
    intro whole terms isMatch
    rw [← sound.renderTerm_of_matches facts isMatch prepared.grows]
    exact collected (carries.truncated.symm.trans whole) ⟨answer, terms⟩ rfl
      (prepared.hasAnswer sound facts accepts isMatch)

end KnowledgeBase

/-- Whatever was told and asked before: if the store holds facts only, then a
conjunction of atoms that is asked without limits, under a filter that lets all ground
terms through, has a table of answers.  No tuple is listed twice, and unless the
search was cut short the tuples are the printings of those ground terms that make
facts of all atoms. -/
theorem askBindings_tuples_of_facts (config : Config) (requests : List Request)
    {conversation : Conversation}
    (reached : (Conversation.answerAll requests (.start config)).Returns conversation)
    (facts : conversation.kb.store.HoldsFacts) {text : String} {query : SurfaceFormula}
    (parsed : SurfaceFormula.parse text = .ok query) (conjunction : query.isConjunction = true)
    (unlimited : conversation.kb.config.limits = .unlimited)
    (filter : conversation.kb.config.answerFilter = .any ∨
      conversation.kb.config.answerFilter = .ground) :
    (conversation.kb.askBindings text).Always fun result => ∃ answers after,
      result = .ok (answers, after) ∧
      answers.vars = (query.lower conversation.kb.signature).1.free.map Prod.fst ∧
      answers.tuples.Nodup ∧
      (after.statistics.truncated = false → ∀ printed, printed ∈ answers.tuples ↔
        ∃ terms, conversation.kb.store.Matches (query.lower conversation.kb.signature).1 terms ∧
          printed = terms.map conversation.kb.signature.renderTerm) := by
  have soundStart := KnowledgeBase.isSound_empty.{0} config
  have sound := Conversation.isSound_answerAll soundStart reached
  have orderly :=
    Conversation.isOrderly_answerAll soundStart (KnowledgeBase.isOrderly_empty config) reached
  have accepts (terms : List Term) (ground : ∀ t ∈ terms, t.isGround = true) :
      conversation.kb.config.answerFilter.accepts terms = true := by
    rcases filter with isAny | isGround
    · rw [isAny]
      rfl
    · rw [isGround]
      exact List.all_eq_true.mpr ground
  rw [always_iff]
  intro result returned
  obtain ⟨answers, after, rfl, vars, nodup, collected⟩ :=
    KnowledgeBase.askBindings_collects sound orderly facts parsed conjunction unlimited accepts
      returned
  refine ⟨answers, after, rfl, vars, nodup, fun whole printed => ⟨fun mem => ?_, ?_⟩⟩
  · exact sound.exists_matches_of_askBindings facts parsed conjunction returned mem
  · rintro ⟨terms, isMatch, rfl⟩
    exact collected whole terms isMatch

/-- The paths of two edges.  The second atom has the predicate of the first, and one
of its variables. -/
theorem askBindings_tuples_of_facts_paths :
    ∃ conversation query answers after,
      (Conversation.answerAll [.tell "edge(a, b)", .tell "edge(b, f(a))", .ask "edge(a, ?x)",
        .tell "edge(f(a), b)"] (.start .default)).Returns conversation ∧
      conversation.kb.store.HoldsFacts ∧
      SurfaceFormula.parse "edge(?x, ?y) ^ edge(?y, ?z)" = .ok query ∧
      query.isConjunction = true ∧
      (conversation.kb.askBindings "edge(?x, ?y) ^ edge(?y, ?z)").Returns (.ok (answers, after)) ∧
      answers = ⟨["x", "y", "z"], [["a", "b", "f(a)"], ["b", "f(a)", "b"],
        ["f(a)", "b", "f(a)"]]⟩ ∧
      after.statistics.truncated = false ∧
      answers.vars = (query.lower conversation.kb.signature).1.free.map Prod.fst ∧
      answers.tuples.Nodup ∧
      ∀ printed, printed ∈ answers.tuples ↔
        ∃ terms, conversation.kb.store.Matches (query.lower conversation.kb.signature).1 terms ∧
          printed = terms.map conversation.kb.signature.renderTerm := by
  obtain ⟨conversation, done, reached⟩ := exists_run
    (Conversation.answerAll [.tell "edge(a, b)", .tell "edge(b, f(a))", .ask "edge(a, ?x)",
      .tell "edge(f(a), b)"] (.start .default))
  have facts : conversation.kb.store.HoldsFacts := by
    refine of_decide_eq_true ?_
    rw [← done]
    cbv
  have settings : conversation.kb.config = .default := by
    rw [← done]
    cbv
  obtain ⟨query, parsed, conjunction⟩ : ∃ query,
      SurfaceFormula.parse "edge(?x, ?y) ^ edge(?y, ?z)" = .ok query ∧
        query.isConjunction = true := by
    have evaluated : (SurfaceFormula.parse "edge(?x, ?y) ^ edge(?y, ?z)").toOption.map
        Formula.isConjunction = some true := by
      cbv
    cases parsed : SurfaceFormula.parse "edge(?x, ?y) ^ edge(?y, ?z)" with
    | error error => simp [parsed, Except.toOption] at evaluated
    | ok query =>
        rw [parsed] at evaluated
        exact ⟨query, rfl, Option.some.inj evaluated⟩
  have run : ((conversation.kb.askBindings "edge(?x, ?y) ^ edge(?y, ?z)").run .zero
      none).1.toOption.map (fun entry => (entry.1, entry.2.statistics.truncated)) =
        some (⟨["x", "y", "z"], [["a", "b", "f(a)"], ["b", "f(a)", "b"],
          ["f(a)", "b", "f(a)"]]⟩, false) := by
    rw [← done]
    cbv
  obtain ⟨⟨answers, after⟩, asked, seen⟩ := exists_run_ok _ run
  obtain ⟨isTable, whole⟩ := Prod.mk.inj seen
  obtain ⟨_, _, ⟨⟩, vars, nodup, matched⟩ := (always_iff ..).mp
    (askBindings_tuples_of_facts .default _ reached facts parsed conjunction
      (by rw [settings]; rfl) (by rw [settings]; exact .inr rfl)) _ asked
  exact ⟨conversation, query, answers, after, reached, facts, parsed, conjunction, asked, isTable,
    whole, vars, nodup, matched whole⟩

end Entailment.FirstOrder
