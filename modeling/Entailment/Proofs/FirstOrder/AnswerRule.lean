import Entailment.FirstOrder.KnowledgeBase
import Entailment.Proofs.FirstOrder.AnswerTies
import Entailment.Proofs.FirstOrder.ClausifyMeaning

/-!
# The rule and the goal of a query

A query with free variables becomes a rule, from the query to the answer literal
of its free variables, and a goal, that there is no answer.  In every clause of
the rule the Skolem functions of the query are tied to the answer literal.  A
model in which the answer predicate is true of the values for which the query
holds becomes a model of the rule.
-/

namespace Entailment.FirstOrder.KnowledgeBase

variable {answer : PredicateSymbol} {signature : Signature} {lowered : Lowered}

universe u

/-- The atom that collects the values of the free variables of a query. -/
abbrev answerAtom (answer : PredicateSymbol) (lowered : Lowered) : Atom :=
  ⟨answer, lowered.freeVariables.map .var⟩

/-- What is known of the clauses of a query. -/
structure AnswerRule (answer : PredicateSymbol) (lowered : Lowered) (signature after : Signature)
    (ruleClauses goalClauses : List Clause) : Prop where
  gains : signature.GainsSymbols (fun name => ¬IsPlain name) after
  isOver : ∀ c ∈ ruleClauses ++ goalClauses, c.IsOver after
  rule : ∀ c ∈ ruleClauses,
    c.Tied answer signature.functions.size lowered.freeVariables.length
  goal : ∀ c ∈ goalClauses, c.IsGoal answer
  model : ∀ ⦃D : Type u⦄ (M : Model D),
    (∀ ρ, formulaHolds M ρ lowered.formula → (answerAtom answer lowered).Holds M ρ) →
      ∃ M' : Model D, M'.AgreesOn signature M ∧ ∀ c ∈ ruleClauses, M'.Satisfies c

theorem apply_empty (a : Atom) : a.apply .empty = a := by
  obtain ⟨p, args⟩ := a
  have same : Substitution.empty.apply = id := funext fun t => by
    rw [Substitution.apply_eq_replace, Substitution.image_empty, Term.replace_self, id]
  simp [Atom.apply, same]

/-- Every disjunction of a rule has the answer literal, and no negative literal on
the answer predicate. -/
theorem rule_disjunctions (freeOver : ∀ v ∈ lowered.freeVariables, v.index < signature.vars.size)
    (atoms : lowered.formula.EveryAtom (fun binders a => a.IsScoped signature lowered.freeVariables
      binders ∧ a.predicate ≠ answer) []) {normal result : Formula Variable Atom}
    {state : Skolemization} {disjunctions : ClauseSet Atom}
    (normalized : (Formula.binary .implies lowered.formula (.atom (answerAtom answer
      lowered))).negationNormal false = .ok normal)
    (skolemized : skolemize lowered.freeVariables normal signature = (.ok result, state))
    (distributed : result.distribute = .ok disjunctions) :
    ∀ disjunction ∈ disjunctions, .positive (answerAtom answer lowered) ∈ disjunction ∧
      ∀ literal ∈ disjunction, literal.atom.predicate = answer → literal.sign = .positive := by
  -- The negated query, and what becomes of it on its own.
  obtain ⟨negated, negatedDone, form⟩ := Formula.negationNormal_spec.{0} true lowered.formula
  obtain ⟨left, middle, leftDone, leftSkolemized, -⟩ :=
    skolemize_spec.{0} (fun _ _ good => good.1) freeOver form.isNormal (form.everyAtom atoms)
  simp only [skolemize] at leftDone
  obtain ⟨clauses, clausesDone, clausal⟩ :=
    Formula.distribute_spec.{0} leftSkolemized.isNormal leftSkolemized.isQuantifierFree
  have noAnswer := clausal.atoms leftSkolemized.atoms
  have isOr : normal = .binary .or negated (.atom (answerAtom answer lowered)) := by
    simp only [Formula.negationNormal] at negatedDone
    simp only [Formula.negationNormal, Formula.removeEquivalence, Formula.removeImplication,
      Formula.pushNegation, Bool.not_false, negatedDone] at normalized
    exact (Except.ok.inj normalized).symm
  subst isOr
  simp only [skolemize, Skolemization.run, leftDone, apply_empty] at skolemized
  obtain ⟨isResult, -⟩ := Prod.mk.inj skolemized
  obtain rfl := Except.ok.inj isResult
  simp only [Formula.distribute, clausesDone] at distributed
  obtain rfl : ClauseSet.product clauses [[.positive (answerAtom answer lowered)]] = disjunctions :=
    Except.ok.inj distributed
  intro disjunction mem
  obtain ⟨fromQuery, fromQueryMem, only, onlyMem, rfl⟩ := ClauseSet.mem_product.mp mem
  obtain rfl := List.mem_singleton.mp onlyMem
  constructor
  · exact Sorted.mem_union.mpr (.inr (List.mem_singleton.mpr rfl))
  · intro literal literalMem onAnswer
    rcases Sorted.mem_union.mp literalMem with inQuery | isAnswer
    · obtain ⟨binders, a, τ, good, instanceOf, -⟩ :=
        noAnswer fromQuery fromQueryMem literal inQuery
      rw [instanceOf] at onAnswer
      exact absurd onAnswer good.2
    · rw [List.mem_singleton.mp isAnswer]
      rfl

/-- In a disjunction with the answer literal, the new functions are tied to it. -/
theorem tied_ofList {answer : PredicateSymbol} {lowered : Lowered} {signature after : Signature}
    {disjunction : Disjunction Atom}
    (atoms : ∀ literal ∈ disjunction, literal.atom.IsSkolemInstance
      (Atom.IsScoped signature lowered.freeVariables) signature after lowered.freeVariables)
    (answerMem : .positive (answerAtom answer lowered) ∈ disjunction)
    (positive : ∀ literal ∈ disjunction, literal.atom.predicate = answer →
      literal.sign = .positive) :
    (Clause.ofList disjunction).Tied answer signature.functions.size
      lowered.freeVariables.length := by
  constructor
  · rintro literal mem f args ⟨t, tMem, occurs⟩ isNew
    obtain ⟨binders, a, τ, isScoped, instanceOf, images⟩ :=
      atoms literal (Sorted.mem_ofList.mp mem)
    rw [instanceOf] at tMem
    obtain ⟨s, sMem, rfl⟩ := List.mem_map.mp tMem
    rw [Substitution.apply_eq_replace] at occurs
    rcases occurs.of_replace with ⟨ss, inTerm, -⟩ | ⟨v, vMem, inImage⟩
    · have old := (isScoped.isOver.isOver s sMem).functionsBelow f ss inTerm
      exact absurd old (Nat.not_lt.mpr isNew)
    · obtain ⟨-, shape⟩ := images v (isScoped.inScope s sMem v vMem)
      rcases shape with ⟨x, isVariable⟩ | ⟨g, arguments, -, freeFirst, isApplication⟩
      · rw [isVariable] at inImage
        exact absurd inImage Term.not_hasApplication_var
      · rw [isApplication] at inImage
        cases inImage with
        | here =>
            have sameArgs : (arguments.map Term.var).take lowered.freeVariables.length =
                lowered.freeVariables.map .var := by
              rw [← List.map_take, ← List.prefix_iff_eq_take.mp freeFirst]
            rw [sameArgs]
            exact Sorted.mem_ofList.mpr answerMem
        | inside inList occurs =>
            obtain ⟨x, -, rfl⟩ := List.mem_map.mp inList
            exact absurd occurs Term.not_hasApplication_var
  · intro literal mem
    exact positive literal (Sorted.mem_ofList.mp mem)

/-- A query over a signature that has the answer predicate, in which the query
does not use it, gives a rule and a goal. -/
theorem answerClauses_spec (has : signature.HasCanonical)
    (freeOver : ∀ v ∈ lowered.freeVariables, v.index < signature.vars.size)
    (bound : answer.index < signature.predicates.size)
    (arity : lowered.freeVariables.length = (signature.predicateInfo answer).arity)
    (atoms : lowered.formula.EveryAtom (fun binders a => a.IsScoped signature lowered.freeVariables
      binders ∧ a.predicate ≠ answer) []) :
    ∃ ruleClauses goalClauses,
      (answerClauses answer lowered signature).clauses = .ok (ruleClauses ++ goalClauses) ∧
      AnswerRule.{u} answer lowered signature (answerClauses answer lowered signature).signature
        ruleClauses goalClauses := by
  have atomOver : (answerAtom answer lowered).IsScoped signature lowered.freeVariables [] := by
    refine ⟨⟨bound, by simpa using arity, fun t mem => ?_⟩, fun t mem v vMem => .inr ?_⟩
    · obtain ⟨v, vMem, rfl⟩ := List.mem_map.mp mem
      exact .var (freeOver v vMem)
    · obtain ⟨w, wMem, rfl⟩ := List.mem_map.mp mem
      rw [Term.vars_var, List.mem_singleton] at vMem
      exact vMem ▸ wMem
  have ruleAtoms : (Formula.binary .implies lowered.formula
      (.atom (answerAtom answer lowered))).EveryAtom
        (Atom.IsScoped signature lowered.freeVariables) [] :=
    ⟨atoms.imp fun _ _ good => good.1, atomOver⟩
  obtain ⟨ruleNormal, ruleDisjunctions, ruleClauses, ruleDone, ruleHolds, ruleMade, rule⟩ :=
    clausesOf_spec.{u} (fun _ _ isScoped => isScoped) has freeOver false ruleAtoms
  have grows := rule.gains.grows
  have goalAtoms : (Formula.atom (answerAtom answer lowered)).EveryAtom
      (Atom.IsScoped (clausesOf false lowered.freeVariables (.binary .implies lowered.formula
        (.atom (answerAtom answer lowered))) signature).signature lowered.freeVariables) [] :=
    ⟨atomOver.isOver.mono grows, atomOver.inScope⟩
  obtain ⟨goalNormal, goalDisjunctions, goalClauses, goalDone, -, goalMade, goal⟩ :=
    clausesOf_spec.{u} (fun _ _ isScoped => isScoped) (rule.gains.canonical has)
      (fun v mem => Nat.lt_of_lt_of_le (freeOver v mem) grows.varsSize) true goalAtoms
  refine ⟨ruleClauses, goalClauses, ?_, ?_⟩
  · simp only [answerClauses, ruleMade, goalMade]
    rfl
  constructor
  · exact rule.gains.trans goal.gains
  · intro c mem
    rcases List.mem_append.mp mem with inRule | inGoal
    · exact (rule.isOver c inRule).mono goal.gains.grows
    · exact goal.isOver c inGoal
  · intro c mem
    obtain ⟨disjunction, disjunctionMem, variant⟩ := rule.variant c mem
    obtain ⟨result, state, skolemized, distributed⟩ := rule.distributed
    obtain ⟨answerMem, positive⟩ :=
      rule_disjunctions freeOver atoms ruleDone skolemized distributed disjunction disjunctionMem
    exact (tied_ofList (rule.atoms disjunction disjunctionMem) answerMem positive).of_isVariantOf
      variant
  · intro c mem
    obtain ⟨disjunction, disjunctionMem, variant⟩ := goal.variant c mem
    obtain ⟨result, state, skolemized, distributed⟩ := goal.distributed
    obtain rfl : goalNormal = .not (.atom (answerAtom answer lowered)) :=
      (Except.ok.inj goalDone).symm
    simp only [skolemize, Skolemization.run, apply_empty] at skolemized
    obtain rfl := Except.ok.inj (Prod.mk.inj skolemized).1
    obtain rfl := Except.ok.inj distributed
    obtain rfl := List.mem_singleton.mp disjunctionMem
    refine Clause.IsGoal.of_isVariantOf (fun literal literalMem => ?_) variant
    exact ⟨_, List.mem_singleton.mp (Sorted.mem_ofList.mp literalMem)⟩
  · intro D M holds
    exact rule.model M fun ρ => (ruleHolds M ρ).mpr (holds ρ)

theorem not_isPlain_answerName : ¬IsPlain answerName := by
  simp [IsPlain, answerName]

/-- What a signature gains by the answer predicate: no function, and a predicate
that is none of those with a plain name. -/
structure GainsAnswer (arity : Nat) (signature : Signature) (answer : PredicateSymbol)
    (extended : Signature) : Prop where
  gains : signature.GainsSymbols (fun _ => True) extended
  functions : extended.functions = signature.functions
  bound : answer.index < extended.predicates.size
  arity : (extended.predicateInfo answer).arity = arity
  notPlain : ¬IsPlain (extended.predicateInfo answer).name

theorem gainsAnswer_internPredicate (arity : Nat) (signature : Signature) :
    GainsAnswer arity signature (signature.internPredicate answerName arity).1
      (signature.internPredicate answerName arity).2 := by
  obtain ⟨gains, bound, info⟩ :=
    @Signature.internPredicate_spec (fun _ => True) answerName arity signature trivial
  constructor
  · exact gains
  · unfold Signature.internPredicate
    split
    · rfl
    · rfl
  · exact bound
  · rw [info]
  · rw [info]
    exact not_isPlain_answerName

/-- A predicate with a plain name is not the answer predicate. -/
theorem GainsAnswer.ne_of_isPlain {arity : Nat} {signature extended : Signature}
    {answer p : PredicateSymbol} (gains : GainsAnswer arity signature answer extended)
    (bound : p.index < signature.predicates.size)
    (plain : IsPlain (signature.predicateInfo p).name) : p ≠ answer := by
  rintro rfl
  rw [← gains.gains.grows.predicateInfo bound] at plain
  exact gains.notPlain plain

/-- The clauses of a query that was read. -/
theorem exists_answerRule {extended : Signature} {query : SurfaceFormula}
    (has : signature.HasCanonical)
    (means : Lowered.Means.{u} signature (query.lower signature).2 query (query.lower signature).1)
    (gains : GainsAnswer (query.lower signature).1.free.length (query.lower signature).2 answer
      extended) :
    ∃ ruleClauses goalClauses,
      (answerClauses answer (query.lower signature).1 extended).clauses =
        .ok (ruleClauses ++ goalClauses) ∧
      AnswerRule.{u} answer (query.lower signature).1 extended
        (answerClauses answer (query.lower signature).1 extended).signature
        ruleClauses goalClauses := by
  have grows := gains.gains.grows
  apply answerClauses_spec
  · exact gains.gains.canonical (means.gains.canonical has)
  · intro v mem
    exact Nat.lt_of_lt_of_le (means.freeOver v mem) grows.varsSize
  · exact gains.bound
  · rw [gains.arity, Lowered.freeVariables, List.length_map]
  · refine means.atoms.imp fun _ a written => ⟨⟨written.isOver.mono grows, written.inScope⟩, ?_⟩
    exact gains.ne_of_isPlain written.isOver.bound written.plain

end Entailment.FirstOrder.KnowledgeBase
