import Entailment.Proofs.FirstOrder.ResolventSoundness
import Mathlib.Tactic.Choose

/-!
# Answers and the Skolem functions of a query

The rule of a query derives an answer literal from the query.  A Skolem function
of the rule is applied to the free variables of the query first, and the answer
literal of the same clause has the same variables as its arguments.  This tie is
kept by instances, and by resolution on every predicate but the answer predicate:
a unifier puts in instances of applications that the two clauses have already,
and the answer literals to which these are tied stay in the resolvent.

So an answer that is derived without a condition mentions no Skolem function of
its query.  Otherwise the application would have the answer itself among its
arguments.
-/

namespace Entailment.FirstOrder

variable {answer : PredicateSymbol} {first arity : Nat}
variable {c d r left right : Clause} {signature extended : Signature} {p : PredicateSymbol}

/-! ## Literals of a resolvent -/

/-- A literal of a variant has the predicate and the sign of a literal of the
clause. -/
theorem Clause.IsVariantOf.exists_literal {renamed : Clause} (variant : renamed.IsVariantOf c)
    {literal : Literal Atom} (mem : literal ∈ renamed.literals) :
    ∃ original ∈ c.literals, original.atom.predicate = literal.atom.predicate ∧
      original.sign = literal.sign := by
  obtain ⟨σ, -, rfl⟩ := variant
  obtain ⟨original, originalMem, rfl⟩ := Clause.mem_literals_apply.mp mem
  exact ⟨original, originalMem, rfl, rfl⟩

/-- A literal of a resolvent of two variants has the predicate and the sign of a literal of
one of the two clauses. -/
theorem Attempt.exists_literal (leftVariant : left.IsVariantOf c)
    (rightVariant : right.IsVariantOf d)
    (mem : r ∈ Attempt.resolvents extended (left.attempts p right))
    {literal : Literal Atom} (literalMem : literal ∈ r.literals) :
    ∃ original, (original ∈ c.literals ∨ original ∈ d.literals) ∧
      original.atom.predicate = literal.atom.predicate ∧ original.sign = literal.sign := by
  obtain ⟨attempt, attemptMem, given⟩ := List.mem_filterMap.mp mem
  obtain ⟨resolvent, resolved, rfl⟩ := Option.map_eq_some_iff.mp given
  obtain ⟨a, b, place, otherPlace, σ, -, -, -, -, -, -, rfl⟩ :=
    Attempt.exists_of_resolvent? attemptMem resolved
  obtain ⟨instanceOf, instanceMem, samePredicate, sameSign⟩ :=
    (Clause.isVariantOf_renameFrom extended 0 _).exists_literal literalMem
  obtain ⟨renamed, renamedMem, rfl⟩ := Clause.mem_literals_apply.mp instanceMem
  rcases Attempt.mem_of_mem_rest (Sorted.mem_ofList.mp renamedMem) with inLeft | inRight
  · obtain ⟨original, originalMem, predicate, sign⟩ := leftVariant.exists_literal inLeft
    exact ⟨original, .inl originalMem, predicate.trans samePredicate, sign.trans sameSign⟩
  · obtain ⟨original, originalMem, predicate, sign⟩ := rightVariant.exists_literal inRight
    exact ⟨original, .inr originalMem, predicate.trans samePredicate, sign.trans sameSign⟩

theorem Clause.not_mentions_iff :
    c.mentions p = false ↔ ∀ literal ∈ c.literals, literal.atom.predicate ≠ p := by
  simp [Clause.mentions]

/-- A resolvent of two variants mentions a predicate only if one of the two clauses does. -/
theorem Attempt.mentions_of_mem_resolvents (leftVariant : left.IsVariantOf c)
    (rightVariant : right.IsVariantOf d) {q : PredicateSymbol}
    (mem : r ∈ Attempt.resolvents extended (left.attempts p right))
    (mentioned : r.mentions q = true) :
    c.mentions q = true ∨ d.mentions q = true := by
  simp only [Clause.mentions, List.any_eq_true, decide_eq_true_eq] at mentioned ⊢
  obtain ⟨literal, literalMem, onPredicate⟩ := mentioned
  obtain ⟨original, originalMem, samePredicate, -⟩ :=
    exists_literal leftVariant rightVariant mem literalMem
  have onIt := samePredicate.trans onPredicate
  exact originalMem.imp (⟨original, ·, onIt⟩) (⟨original, ·, onIt⟩)

/-! ## Tied clauses -/

namespace Clause

variable {c : Clause}

/-- A clause in which the function symbols numbered from `first` on are tied to
answers: an application of such a symbol comes with a positive answer literal for
its first arguments, `arity` of them.  The clause has no negative answer literal. -/
structure Tied (answer : PredicateSymbol) (first arity : Nat) (c : Clause) : Prop where
  ties : ∀ literal ∈ c.literals, ∀ f args, literal.atom.HasApplication f args →
    first ≤ f.index → .positive ⟨answer, args.take arity⟩ ∈ c.literals
  positive : ∀ literal ∈ c.literals, literal.atom.predicate = answer → literal.sign = .positive

/-- A goal: it has negative answer literals only, and their arguments are
variables. -/
def IsGoal (answer : PredicateSymbol) (c : Clause) : Prop :=
  ∀ literal ∈ c.literals, ∃ vars : List Variable,
    literal = .negative ⟨answer, vars.map .var⟩

/-- An instance of a tied clause is tied, if the applications that the
substitution puts in are tied to answer literals of the clause as well. -/
theorem Tied.apply {σ : Substitution} (tied : c.Tied answer first arity)
    (introduced : ∀ v f args, (σ.image v).HasApplication f args → first ≤ f.index → ∃ ss : List
      Term, .positive ⟨answer, ss.take arity⟩ ∈ c.literals ∧ args = ss.map σ.apply) :
    (c.apply σ).Tied answer first arity := by
  have isReplacement : σ.apply = Term.replace σ.image :=
    funext fun t => Substitution.apply_eq_replace σ t
  have answers {ss : List Term} (mem : .positive ⟨answer, ss.take arity⟩ ∈ c.literals) :
      .positive ⟨answer, (ss.map σ.apply).take arity⟩ ∈ (c.apply σ).literals := by
    refine mem_literals_apply.mpr ⟨_, mem, ?_⟩
    simp only [Literal.map, Literal.positive, Atom.apply, List.map_take]
  constructor
  · rintro literal mem f args ⟨t, tMem, occurs⟩ isNew
    obtain ⟨original, originalMem, rfl⟩ := mem_literals_apply.mp mem
    obtain ⟨s, sMem, rfl⟩ := List.mem_map.mp tMem
    rw [isReplacement] at occurs
    rcases occurs.of_replace with ⟨ss, inTerm, rfl⟩ | ⟨v, -, inImage⟩
    · rw [← isReplacement]
      exact answers (tied.ties original originalMem f ss ⟨s, sMem, inTerm⟩ isNew)
    · obtain ⟨ss, mem, rfl⟩ := introduced v f args inImage isNew
      exact answers mem
  · intro literal mem onAnswer
    obtain ⟨original, originalMem, rfl⟩ := mem_literals_apply.mp mem
    exact tied.positive original originalMem onAnswer

/-- A variant of a tied clause is tied. -/
theorem Tied.of_isVariantOf {renamed : Clause} (tied : c.Tied answer first arity)
    (variant : renamed.IsVariantOf c) : renamed.Tied answer first arity := by
  obtain ⟨σ, isRenaming, rfl⟩ := variant
  refine tied.apply fun v f args occurs _ => ?_
  obtain ⟨w, image⟩ := isRenaming v
  rw [image] at occurs
  exact absurd occurs Term.not_hasApplication_var

/-- A variant of a goal is a goal. -/
theorem IsGoal.of_isVariantOf {renamed : Clause} (isGoal : c.IsGoal answer)
    (variant : renamed.IsVariantOf c) : renamed.IsGoal answer := by
  obtain ⟨σ, isRenaming, rfl⟩ := variant
  choose target image using isRenaming
  intro literal mem
  obtain ⟨original, originalMem, rfl⟩ := mem_literals_apply.mp mem
  obtain ⟨vars, rfl⟩ := isGoal original originalMem
  refine ⟨vars.map target, ?_⟩
  simp [Literal.map, Literal.negative, Atom.apply, image]

/-- A goal mentions the answer predicate only. -/
theorem IsGoal.not_mentions (isGoal : c.IsGoal answer) (different : p ≠ answer) :
    c.mentions p = false := by
  rw [not_mentions_iff]
  intro literal mem
  obtain ⟨vars, rfl⟩ := isGoal literal mem
  exact different.symm

end Clause

/-- Resolving tied clauses on another predicate gives tied clauses. -/
theorem Attempt.tied_resolvent {attempt : Attempt} (mem : attempt ∈ c.attempts p d)
    (resolved : attempt.resolvent? = some r) (cOver : c.IsOver signature)
    (dOver : d.IsOver signature) (cTied : c.Tied answer first arity)
    (dTied : d.Tied answer first arity) (different : p ≠ answer) : r.Tied answer first arity := by
  obtain ⟨a, b, place, otherPlace, σ, found, otherFound, aPredicate, bPredicate, -, unified, rfl⟩ :=
    exists_of_resolvent? mem resolved
  -- The literals that are resolved away are no answer literals.
  have inRest {f : FunctionSymbol} {args : List Term} (isNew : first ≤ f.index)
      (occurs : (∃ literal ∈ c.literals, literal.atom.HasApplication f args) ∨
        ∃ literal ∈ d.literals, literal.atom.HasApplication f args) :
      .positive ⟨answer, args.take arity⟩ ∈ c.without place ++ d.without otherPlace := by
    rcases occurs with ⟨literal, literalMem, occurs⟩ | ⟨literal, literalMem, occurs⟩
    · have inClause := cTied.ties literal literalMem f args occurs isNew
      rcases Clause.eq_or_mem_without found inClause with resolvedAway | inOthers
      · have onAnswer : answer = a.predicate :=
          congrArg (fun literal => literal.atom.predicate) resolvedAway
        exact absurd (aPredicate.symm.trans onAnswer.symm) different
      · exact List.mem_append_left _ inOthers
    · have inClause := dTied.ties literal literalMem f args occurs isNew
      rcases Clause.eq_or_mem_without otherFound inClause with resolvedAway | inOthers
      · cases resolvedAway
      · exact List.mem_append_right _ inOthers
  have restTied : (Clause.ofList (c.without place ++ d.without otherPlace)).Tied answer first
      arity := by
    have origin {literal : Literal Atom}
        (literalMem : literal ∈
          (Clause.ofList (c.without place ++ d.without otherPlace)).literals) :
        literal ∈ c.literals ∨ literal ∈ d.literals :=
      (List.mem_append.mp (Sorted.mem_ofList.mp literalMem)).imp Clause.mem_of_mem_without
        Clause.mem_of_mem_without
    constructor
    · intro literal literalMem f args occurs isNew
      refine Sorted.mem_ofList.mpr (inRest isNew ?_)
      exact (origin literalMem).imp (fun h => ⟨literal, h, occurs⟩) (fun h => ⟨literal, h, occurs⟩)
    · intro literal literalMem
      exact (origin literalMem).elim (cTied.positive literal) (dTied.positive literal)
  refine restTied.apply fun v f args occurs isNew => ?_
  have aMem := List.mem_of_getElem? found
  have bMem := List.mem_of_getElem? otherFound
  obtain ⟨ss, inAtoms, rfl⟩ :=
    Atom.hasApplication_of_unify unified (cOver _ aMem) (dOver _ bMem) occurs
  refine ⟨ss, Sorted.mem_ofList.mpr (inRest isNew ?_), rfl⟩
  exact inAtoms.imp (fun h => ⟨_, aMem, h⟩) (fun h => ⟨_, bMem, h⟩)

/-- A resolvent of two clauses that were renamed apart is tied if they are. -/
theorem RenamedApart.tied_resolvent {c d left right r : Clause} {signature extended : Signature}
    (apart : RenamedApart c d signature left right extended) {p : PredicateSymbol}
    (mem : r ∈ Attempt.resolvents extended (left.attempts p right))
    (cTied : c.Tied answer first arity) (dTied : d.Tied answer first arity)
    (different : p ≠ answer) : r.Tied answer first arity := by
  obtain ⟨attempt, attemptMem, given⟩ := List.mem_filterMap.mp mem
  obtain ⟨resolvent, resolved, rfl⟩ := Option.map_eq_some_iff.mp given
  exact (Attempt.tied_resolvent attemptMem resolved apart.leftOver apart.rightOver
    (cTied.of_isVariantOf apart.leftVariant) (dTied.of_isVariantOf apart.rightVariant)
    different).of_isVariantOf (Clause.isVariantOf_renameFrom ..)

/-! ## Answers -/

/-- All function symbols of a term are numbered below a bound. -/
def Term.FunctionsBelow (bound : Nat) (t : Term) : Prop :=
  ∀ f args, t.HasApplication f args → f.index < bound

/-- The function symbols of a term over a signature are those of the signature. -/
theorem Term.IsOver.functionsBelow {t : Term} (isOver : t.IsOver signature) :
    t.FunctionsBelow signature.functions.size := by
  intro f args occurs
  induction occurs with
  | here => exact (Term.isOver_app.mp isOver).1
  | inside mem _ ih => exact ih ((Term.isOver_app.mp isOver).2.2 _ mem)

/-- A clause over a signature that does not mention the answer predicate has
nothing to tie. -/
theorem Clause.IsOver.tied (isOver : c.IsOver signature)
    (different : ∀ literal ∈ c.literals, literal.atom.predicate ≠ answer) (arity : Nat) :
    c.Tied answer signature.functions.size arity := by
  constructor
  · rintro literal mem f args ⟨t, tMem, occurs⟩ isNew
    have old := ((isOver literal mem).isOver t tMem).functionsBelow f args occurs
    exact absurd old (Nat.not_lt.mpr isNew)
  · intro literal mem onAnswer
    exact absurd onAnswer (different literal mem)

/-- A tied clause with one literal, an answer, mentions none of the tied symbols:
an application of one would have the answer among its arguments. -/
theorem Clause.Tied.functionsBelow (tied : c.Tied answer first arity) {terms : List Term}
    (only : ∀ literal, literal ∈ c.literals ↔ literal = .positive ⟨answer, terms⟩) {t : Term}
    (mem : t ∈ terms) : t.FunctionsBelow first := by
  intro f args occurs
  by_contra isNew
  have answerMem : .positive ⟨answer, args.take arity⟩ ∈ c.literals :=
    tied.ties _ ((only _).mpr rfl) f args ⟨t, mem, occurs⟩ (Nat.not_lt.mp isNew)
  have sameTerms : args.take arity = terms :=
    congrArg (fun literal => literal.atom.args) ((only _).mp answerMem)
  have inArgs : t ∈ args := List.mem_of_mem_take (sameTerms ▸ mem)
  exact absurd (occurs.size_lt inArgs) (Nat.lt_irrefl _)

/-- What an answer is, given by an attempt between a tied clause and a goal: the
tied clause has one literal, an answer of which this one is an instance, and the
tied symbols do not occur. -/
theorem Attempt.answer_of_isRefutation {attempt : Attempt} {terms : List Term}
    (mem : attempt ∈ c.attempts answer d) (cOver : c.IsOver signature) (dOver : d.IsOver signature)
    (tied : c.Tied answer first arity) (isGoal : d.IsGoal answer)
    (isRefutation : attempt.isRefutation = true) (given : attempt.tuple? = some terms) :
    (∃ σ : Substitution, ∀ literal,
      literal ∈ (c.apply σ).literals ↔ literal = .positive ⟨answer, terms⟩) ∧
      Atom.IsOver signature ⟨answer, terms⟩ ∧ ∀ t ∈ terms, t.FunctionsBelow first := by
  obtain ⟨r, resolved, isEmpty⟩ := (Option.any_eq_true ..).mp isRefutation
  obtain ⟨a, b, place, otherPlace, σ, found, otherFound, aPredicate, -, rfl, unified, rfl⟩ :=
    exists_of_resolvent? mem resolved
  obtain rfl : a.args.map σ.apply = terms := Option.some.inj given
  obtain ⟨predicate, args⟩ := a
  obtain rfl : predicate = answer := aPredicate
  have aMem := List.mem_of_getElem? found
  have bMem := List.mem_of_getElem? otherFound
  have only (literal : Literal Atom) :
      literal ∈ c.literals ↔ literal = .positive ⟨predicate, args⟩ := by
    constructor
    · intro literalMem
      refine (Clause.eq_or_mem_without found literalMem).resolve_right fun inOthers => ?_
      have inEmpty : literal.map (Atom.apply σ) ∈
          ((Clause.ofList (c.without place ++ d.without otherPlace)).apply σ).literals :=
        Clause.mem_literals_apply.mpr
          ⟨literal, Sorted.mem_ofList.mpr (List.mem_append_left _ inOthers), rfl⟩
      rw [List.isEmpty_iff.mp isEmpty] at inEmpty
      cases inEmpty
    · rintro rfl
      exact aMem
  refine ⟨⟨σ, fun literal => ?_⟩, ?_, ?_⟩
  · simp only [Clause.mem_literals_apply, only, exists_eq_left]
    exact eq_comm
  · exact Atom.IsOver.apply (Atom.isOver_of_unify unified (cOver _ aMem) (dOver _ bMem))
      (cOver _ aMem)
  · intro t tMem f us occurs
    obtain ⟨s, sMem, rfl⟩ := List.mem_map.mp tMem
    rw [Substitution.apply_eq_replace] at occurs
    rcases occurs.of_replace with ⟨ss, inTerm, -⟩ | ⟨v, -, inImage⟩
    · exact tied.functionsBelow only sMem f ss inTerm
    · obtain ⟨ss, inAtoms, -⟩ :=
        Atom.hasApplication_of_unify unified (cOver _ aMem) (dOver _ bMem) inImage
      rcases inAtoms with ⟨s', s'Mem, inTerm⟩ | ⟨s', s'Mem, inTerm⟩
      · exact tied.functionsBelow only s'Mem f ss inTerm
      · -- The arguments of the goal are variables.
        obtain ⟨vars, isLiteral⟩ := isGoal _ bMem
        have goalArgs : b.args = vars.map .var :=
          congrArg (fun literal => literal.atom.args) isLiteral
        rw [goalArgs] at s'Mem
        obtain ⟨x, -, rfl⟩ := List.mem_map.mp s'Mem
        exact absurd inTerm Term.not_hasApplication_var

end Entailment.FirstOrder
