import Entailment.Proofs.FirstOrder.AnswerRule
import Entailment.Proofs.FirstOrder.FactResolution

/-!
# Conjunctive queries

A conjunction of atoms becomes a rule of one clause, whose conditions are the atoms
and whose conclusion is the answer literal, and a goal of one clause.  Every free
variable of the query occurs in one of its atoms.  So where the atoms have the same
instances the free variables have the same values, and values that make facts of all
atoms make the rule lead to the answer of these values.
-/

namespace Entailment

/-- Whether a formula is an atom or a conjunction of atoms. -/
def Formula.isConjunction {β α : Type} : Formula β α → Bool
  | .atom _ => true
  | .binary .and left right => left.isConjunction && right.isConjunction
  | _ => false

namespace FirstOrder

variable {v : Variable} {image : Variable → Term} {t : Term} {a : Atom}

/-! ## Instances of terms and atoms -/

/-- Where a term has the same instance its variables have the same values. -/
theorem Term.eq_of_replace_eq {other : Variable → Term} (same : t.replace image = t.replace other)
    (mem : v ∈ t.vars) : image v = other v := by
  induction t with
  | var w =>
      rw [vars_var, List.mem_singleton] at mem
      rw [mem]
      exact same
  | app f args ih =>
      rw [vars_app, List.mem_flatMap] at mem
      obtain ⟨s, sMem, vMem⟩ := mem
      rw [replace_app, replace_app] at same
      exact ih s sMem (List.map_inj_left.mp (Term.app.inj same).2 s sMem) vMem

/-- The values of the variables of a ground instance are ground. -/
theorem Term.isGround_of_isGround_replace (ground : (t.replace image).isGround = true)
    (mem : v ∈ t.vars) : (image v).isGround = true := by
  induction t with
  | var w =>
      rw [vars_var, List.mem_singleton] at mem
      rw [mem]
      exact ground
  | app f args ih =>
      rw [vars_app, List.mem_flatMap] at mem
      obtain ⟨s, sMem, vMem⟩ := mem
      rw [replace_app, isGround_app, List.all_eq_true] at ground
      exact ih s sMem (ground _ (List.mem_map_of_mem sMem)) vMem

/-- The values of the variables of an instance over a signature are over it. -/
theorem Term.isOver_of_isOver_replace {signature : Signature}
    (isOver : (t.replace image).IsOver signature) (mem : v ∈ t.vars) :
    (image v).IsOver signature := by
  induction t with
  | var w =>
      rw [vars_var, List.mem_singleton] at mem
      rw [mem]
      exact isOver
  | app f args ih =>
      rw [vars_app, List.mem_flatMap] at mem
      obtain ⟨s, sMem, vMem⟩ := mem
      rw [replace_app] at isOver
      cases isOver with
      | app _ _ areOver => exact ih s sMem (areOver _ (List.mem_map_of_mem sMem)) vMem

theorem Atom.exists_of_mem_vars (mem : v ∈ a.vars) : ∃ t ∈ a.args, v ∈ t.vars := by
  rw [vars, Term.varsOfArgs_eq, List.mem_flatMap] at mem
  exact mem

theorem Atom.eq_of_replace_eq {other : Variable → Term} (same : a.replace image = a.replace other)
    (mem : v ∈ a.vars) : image v = other v := by
  obtain ⟨t, tMem, vMem⟩ := exists_of_mem_vars mem
  exact Term.eq_of_replace_eq (List.map_inj_left.mp (Atom.mk.inj same).2 t tMem) vMem

theorem Atom.isGround_of_isGround_replace (ground : (a.replace image).isGround = true)
    (mem : v ∈ a.vars) : (image v).isGround = true := by
  obtain ⟨t, tMem, vMem⟩ := exists_of_mem_vars mem
  rw [Atom.isGround, Term.areGround_eq, List.all_eq_true] at ground
  exact Term.isGround_of_isGround_replace (ground _ (List.mem_map_of_mem tMem)) vMem

/-! ## Conjunctions -/

/-- A conjunction of atoms is true when all of them are. -/
theorem formulaHolds_iff_of_isConjunction {D : Type} {M : Model D} {ρ : Variable → D}
    {formula : Formula Variable Atom} (conjunction : formula.isConjunction = true) :
    formulaHolds M ρ formula ↔ ∀ a ∈ formula.atoms, a.Holds M ρ := by
  induction formula with
  | atom a =>
      rw [Formula.atoms, List.forall_mem_singleton]
      rfl
  | binary connective left right ihLeft ihRight =>
      cases connective with
      | and =>
          obtain ⟨leftConjunction, rightConjunction⟩ := Bool.and_eq_true_iff.mp conjunction
          rw [Formula.atoms, List.forall_mem_append]
          exact and_congr (ihLeft leftConjunction) (ihRight rightConjunction)
      | _ => cases conjunction
  | _ => cases conjunction

/-! ## The free variables occur -/

namespace Lowering

variable {bound : List (String × Variable)} {state : Lowering} {entry : String × Variable}

theorem isConjunction_lowerFormula (bound : List (String × Variable)) (formula : SurfaceFormula)
    (state : Lowering) :
    (lowerFormula bound formula state).1.isConjunction = formula.isConjunction := by
  induction formula generalizing bound state with
  | binary connective left right ihLeft ihRight =>
      cases connective with
      | and => exact congrArg₂ (· && ·) (ihLeft bound state) (ihRight bound _)
      | _ => rfl
  | _ => rfl

theorem mem_free_lowerVariable {name : String}
    (mem : entry ∈ (lowerVariable bound name state).2.free) :
    entry ∈ state.free ∨ entry.2 = (lowerVariable bound name state).1 := by
  unfold lowerVariable at mem ⊢
  cases isBound : find? name bound with
  | some v =>
      simp only [isBound] at mem
      exact .inl mem
  | none =>
      cases isFree : find? name state.free with
      | some v =>
          simp only [isBound, isFree] at mem
          exact .inl mem
      | none =>
          simp only [isBound, isFree] at mem
          rcases List.mem_append.mp mem with old | isNew
          · exact .inl old
          · rw [List.mem_singleton.mp isNew]
            exact .inr rfl

mutual

theorem mem_free_lowerTerm {bound : List (String × Variable)} {entry : String × Variable} :
    (t : SurfaceTerm) → (state : Lowering) → entry ∈ (lowerTerm bound t state).2.free →
      entry ∈ state.free ∨ entry.2 ∈ (lowerTerm bound t state).1.vars
  | .var name, state, mem =>
      (mem_free_lowerVariable mem).imp_right fun same => List.mem_singleton.mpr same
  | .app name args, state, mem => by
      refine (mem_free_lowerTerms args state mem).imp_right fun ⟨t, tMem, inTerm⟩ => ?_
      rw [lowerTerm, Term.vars_app]
      exact List.mem_flatMap.mpr ⟨t, tMem, inTerm⟩

theorem mem_free_lowerTerms {bound : List (String × Variable)} {entry : String × Variable} :
    (args : List SurfaceTerm) → (state : Lowering) →
      entry ∈ (lowerTerms bound args state).2.free →
      entry ∈ state.free ∨ ∃ t ∈ (lowerTerms bound args state).1, entry.2 ∈ t.vars
  | [], state, mem => .inl mem
  | first :: rest, state, mem => by
      rcases mem_free_lowerTerms rest _ mem with earlier | ⟨t, tMem, inTerm⟩
      · refine (mem_free_lowerTerm first state earlier).imp_right fun inFirst => ?_
        exact ⟨_, List.mem_cons_self .., inFirst⟩
      · exact .inr ⟨t, List.mem_cons_of_mem _ tMem, inTerm⟩

end

theorem mem_free_lowerAtom {a : SurfaceAtom} (mem : entry ∈ (lowerAtom bound a state).2.free) :
    entry ∈ state.free ∨ entry.2 ∈ (lowerAtom bound a state).1.vars := by
  have inArgs {args : List SurfaceTerm} {p : PredicateSymbol}
      (mem : entry ∈ (lowerTerms bound args state).2.free) :
      entry ∈ state.free ∨ entry.2 ∈ (Atom.mk p (lowerTerms bound args state).1).vars := by
    refine (mem_free_lowerTerms args state mem).imp_right fun ⟨t, tMem, inTerm⟩ => ?_
    rw [Atom.vars, Term.varsOfArgs_eq]
    exact List.mem_flatMap.mpr ⟨t, tMem, inTerm⟩
  cases a with
  | predicate name args => exact inArgs mem
  | equation left right => exact @inArgs [left, right] _ mem

/-- A free variable that lowering finds occurs in an atom. -/
theorem mem_free_lowerFormula {formula : SurfaceFormula}
    (mem : entry ∈ (lowerFormula bound formula state).2.free) :
    entry ∈ state.free ∨ ∃ a ∈ (lowerFormula bound formula state).1.atoms, entry.2 ∈ a.vars := by
  induction formula generalizing bound state with
  | truth value => exact .inl mem
  | atom a =>
      exact (mem_free_lowerAtom mem).imp_right fun inAtom => ⟨_, List.mem_singleton.mpr rfl, inAtom⟩
  | not body ih => exact ih mem
  | binary connective left right ihLeft ihRight =>
      rcases ihRight mem with earlier | ⟨a, aMem, inAtom⟩
      · refine (ihLeft earlier).imp_right fun ⟨a, aMem, inAtom⟩ => ?_
        exact ⟨a, List.mem_append_left _ aMem, inAtom⟩
      · exact .inr ⟨a, List.mem_append_right _ aMem, inAtom⟩
  | quantified quantifier name body ih => exact ih mem

end Lowering

theorem SurfaceFormula.exists_mem_vars_lower {formula : SurfaceFormula} {signature : Signature}
    (mem : v ∈ (formula.lower signature).1.freeVariables) :
    ∃ a ∈ (formula.lower signature).1.formula.atoms, v ∈ a.vars := by
  obtain ⟨entry, entryMem, rfl⟩ := List.mem_map.mp mem
  exact (Lowering.mem_free_lowerFormula entryMem).resolve_left (by simp)

/-! ## The clauses of the query -/

/-- A negated conjunction of atoms is a disjunction of negative literals. -/
theorem exists_disjunction_of_isConjunction {formula : Formula Variable Atom}
    (conjunction : formula.isConjunction = true) :
    ∃ normal disjunction, formula.negationNormal true = .ok normal ∧
      (∀ universals state, Skolemization.run universals .empty normal state = (.ok normal, state)) ∧
      normal.distribute = .ok [disjunction] ∧
      ∀ literal, literal ∈ disjunction ↔ ∃ a ∈ formula.atoms, literal = .negative a := by
  induction formula with
  | atom a =>
      refine ⟨.not (.atom a), [.negative a], rfl, fun universals state => ?_, rfl,
        fun literal => ?_⟩
      · rw [Skolemization.run, KnowledgeBase.apply_empty]
      · simp [Formula.atoms]
  | binary connective left right ihLeft ihRight =>
      cases connective with
      | and =>
          obtain ⟨leftConjunction, rightConjunction⟩ := Bool.and_eq_true_iff.mp conjunction
          obtain ⟨leftNormal, leftDisjunction, leftDone, leftRun, leftDistributed, leftMem⟩ :=
            ihLeft leftConjunction
          obtain ⟨rightNormal, rightDisjunction, rightDone, rightRun, rightDistributed, rightMem⟩ :=
            ihRight rightConjunction
          refine ⟨.binary .or leftNormal rightNormal, Sorted.union leftDisjunction rightDisjunction,
            ?_, fun universals state => ?_, ?_, fun literal => ?_⟩
          · simp only [Formula.negationNormal] at leftDone rightDone
            simp only [Formula.negationNormal, Formula.removeEquivalence,
              Formula.removeImplication, Formula.pushNegation, leftDone, rightDone]
            rfl
          · simp only [Skolemization.run, leftRun, rightRun]
          · simp only [Formula.distribute, leftDistributed, rightDistributed]
            exact congrArg Except.ok (Sorted.ofList_singleton _)
          · simp [Formula.atoms, leftMem, rightMem, or_and_right, exists_or]
      | _ => cases conjunction
  | _ => cases conjunction

/-- The clauses of a formula that Skolemization leaves as it is and that gives one
disjunction, which is no tautology. -/
theorem clausesOf_eq_singleton {invert : Bool} {free : List Variable}
    {formula normal : Formula Variable Atom} {signature : Signature}
    {disjunction : Disjunction Atom}
    (normalized : formula.negationNormal invert = .ok normal)
    (skolemized : ∀ universals state,
      Skolemization.run universals .empty normal state = (.ok normal, state))
    (distributed : normal.distribute = .ok [disjunction])
    (notTautology : Disjunction.isTautology disjunction = false) :
    (clausesOf invert free formula signature).clauses =
        .ok [((Clause.ofList disjunction).canonical signature).1] ∧
      (clausesOf invert free formula signature).signature =
        ((Clause.ofList disjunction).canonical signature).2 := by
  simp only [clausesOf, normalized, clausesOfNormal, skolemize, skolemized, distributed,
    ClauseSet.withoutTautologies, List.filter_cons, notTautology, Bool.not_false, if_true,
    List.filter_nil, List.map_cons, List.map_nil, Clause.canonicalAll, and_self]

namespace KnowledgeBase

/-- The clauses of a conjunctive query: a rule from its atoms to the answer literal,
and the goal. -/
structure ConjunctiveClauses (answer : PredicateSymbol) (lowered : Lowered) (rule goal : Clause) :
    Prop where
  rule : ∃ disjunction, rule.IsCopyOf (.ofList disjunction) ∧
    ∀ literal, literal ∈ disjunction ↔ literal = .positive (answerAtom answer lowered) ∨
      ∃ a ∈ lowered.formula.atoms, literal = .negative a
  goal : goal.IsCopyOf (.ofList [.negative (answerAtom answer lowered)])

/-- A conjunctive query has one rule and one goal. -/
theorem exists_conjunctiveClauses {answer : PredicateSymbol} {lowered : Lowered}
    {signature : Signature} (proper : signature.IsProper)
    (conjunction : lowered.formula.isConjunction = true)
    (notAnswer : ∀ a ∈ lowered.formula.atoms, a.predicate ≠ answer) :
    ∃ rule goal, (answerClauses answer lowered signature).clauses = .ok [rule, goal] ∧
      ConjunctiveClauses answer lowered rule goal := by
  obtain ⟨normal, disjunction, normalized, skolemized, distributed, mem_iff⟩ :=
    exists_disjunction_of_isConjunction conjunction
  have ruleMem (literal : Literal Atom) :
      literal ∈ Sorted.union disjunction [.positive (answerAtom answer lowered)] ↔
        literal = .positive (answerAtom answer lowered) ∨
          ∃ a ∈ lowered.formula.atoms, literal = .negative a := by
    rw [Sorted.mem_union, mem_iff, List.mem_singleton, or_comm]
  have notTautology : Disjunction.isTautology
      (Sorted.union disjunction [.positive (answerAtom answer lowered)]) = false := by
    rw [Bool.eq_false_iff]
    intro isTautology
    -- All literals are false where exactly the other predicates are true.
    obtain ⟨literal, mem, holds⟩ := Disjunction.holds_of_isTautology
      (fun a : Atom => a.predicate ≠ answer) (Sorted.isIncreasing_ofList _) isTautology
    rcases (ruleMem literal).mp mem with rfl | ⟨a, aMem, rfl⟩
    · exact holds rfl
    · exact holds (notAnswer a aMem)
  have ruleNormal : (Formula.binary .implies lowered.formula
      (.atom (answerAtom answer lowered))).negationNormal false =
        .ok (.binary .or normal (.atom (answerAtom answer lowered))) := by
    simp only [Formula.negationNormal] at normalized
    simp only [Formula.negationNormal, Formula.removeEquivalence, Formula.removeImplication,
      Formula.pushNegation, Bool.not_false, normalized]
    rfl
  obtain ⟨ruleMade, ruleSignature⟩ := @clausesOf_eq_singleton false lowered.freeVariables _ _
    signature _ ruleNormal
    (fun universals state => by simp only [Skolemization.run, skolemized, apply_empty])
    (by
      simp only [Formula.distribute, distributed]
      exact congrArg Except.ok (Sorted.ofList_singleton _))
    notTautology
  have goalNormal : (Formula.atom (answerAtom answer lowered) :
      Formula Variable Atom).negationNormal true =
        .ok (.not (.atom (answerAtom answer lowered))) := rfl
  obtain ⟨goalMade, -⟩ := @clausesOf_eq_singleton true lowered.freeVariables _ _
    (clausesOf false lowered.freeVariables (.binary .implies lowered.formula
      (.atom (answerAtom answer lowered))) signature).signature
    [.negative (answerAtom answer lowered)] goalNormal
    (fun universals state => by rw [Skolemization.run, apply_empty]) rfl rfl
  have properAfter : (clausesOf false lowered.freeVariables (.binary .implies lowered.formula
      (.atom (answerAtom answer lowered))) signature).signature.IsProper := by
    rw [ruleSignature]
    exact (signature.reserveCanonical_spec _).1.proper proper
  refine ⟨_, _, ?_, ⟨_, Clause.canonical_isCopyOf proper _, ruleMem⟩,
    Clause.canonical_isCopyOf properAfter _⟩
  simp only [answerClauses, ruleMade, goalMade]
  rfl

namespace ConjunctiveClauses

variable {answer : PredicateSymbol} {lowered : Lowered} {rule goal : Clause}
  {image : Variable → Term}

/-- Values of the free variables that make facts of all atoms of the query make its
rule lead to the answer of these values. -/
theorem leadsTo (clauses : ConjunctiveClauses answer lowered rule goal)
    (notAnswer : ∀ a ∈ lowered.formula.atoms, a.predicate ≠ answer)
    (occurs : ∀ v ∈ lowered.freeVariables, ∃ a ∈ lowered.formula.atoms, v ∈ a.vars)
    {isFact : Atom → Prop} (facts : ∀ a ∈ lowered.formula.atoms, isFact (a.replace image)) :
    rule.LeadsTo isFact ⟨answer, lowered.freeVariables.map image⟩ := by
  obtain ⟨disjunction, isCopy, mem_iff⟩ := clauses.rule
  refine Clause.LeadsTo.copy ⟨image, ?_, ?_, ?_, (Sorted.isIncreasing_ofList _).nodup⟩ isCopy
  · intro a mem
    rcases (mem_iff _).mp (Sorted.mem_ofList.mp mem) with same | ⟨b, bMem, same⟩
    · cases same
    · cases same
      exact ⟨notAnswer a bMem, facts a bMem⟩
  · exact ⟨_, Sorted.mem_ofList.mpr ((mem_iff _).mpr (.inl rfl))⟩
  · intro other same a mem
    rcases (mem_iff _).mp (Sorted.mem_ofList.mp mem) with isAnswer | ⟨b, -, isNegative⟩
    · cases isAnswer
      refine congrArg (Atom.mk answer) ?_
      rw [List.map_map]
      refine List.map_congr_left fun v vMem => ?_
      obtain ⟨b, bMem, vOccurs⟩ := occurs v vMem
      have inRule : Literal.negative b ∈ (Clause.ofList disjunction).literals :=
        Sorted.mem_ofList.mpr ((mem_iff _).mpr (.inr ⟨b, bMem, rfl⟩))
      exact Atom.eq_of_replace_eq (same b inRule) vOccurs
    · cases isNegative

/-- The goal asks for the answers of all values. -/
theorem asksFor (clauses : ConjunctiveClauses answer lowered rule goal)
    (image : Variable → Term) : goal.AsksFor ⟨answer, lowered.freeVariables.map image⟩ := by
  refine Clause.AsksFor.copy ⟨_, image, Sorted.ofList_singleton _, ?_⟩ clauses.goal
  exact congrArg (Atom.mk answer) (List.map_map ..)

end ConjunctiveClauses

end KnowledgeBase

end FirstOrder

end Entailment
