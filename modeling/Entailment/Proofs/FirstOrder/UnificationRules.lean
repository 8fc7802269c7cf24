import Entailment.Proofs.FirstOrder.MostGeneral

/-!
# The rules of unification

Unification is a rewriting of problems: some equations that are left and the
substitution found so far.  One rule applies to the equation in front, and a
problem whose equations are all gone is solved.  Turning an equation around makes
nothing smaller, so that the rules have to be followed for two steps there to see
that they come to an end; the solver takes the two steps at once.

What the rules end in is a most general unifier, or there is no unifier at all.
That needs every symbol to have one number of arguments, because the rule for two
applications of one symbol pairs their arguments.
-/

namespace Entailment.FirstOrder

/-- A problem of unification: the equations that are left and the substitution
found so far. -/
structure Unification where
  equations : Equations
  found : Substitution

namespace Unification

/-- What a rule makes of a problem. -/
inductive Progress
  | solved (σ : Substitution)
  | refused
  | next (problem : Unification)

/-- The rule for the equation in front. -/
def step : Unification → Progress
  | ⟨[], σ⟩ => .solved σ
  | ⟨(s, t) :: rest, σ⟩ =>
      if s = t then .next ⟨rest, σ⟩
      else
        match s, t with
        | .var v, t =>
            if t.mentions v then .refused
            else .next ⟨Equations.replace v t rest, σ.compose v t⟩
        | .app f ss, .var v => .next ⟨(.var v, .app f ss) :: rest, σ⟩
        | .app f ss, .app g ts =>
            if f = g then .next ⟨(ss.zip ts).reverse ++ rest, σ⟩ else .refused

/-- Following the rules from a problem ends, with a substitution or a refusal. -/
inductive EndsIn : Unification → Option Substitution → Prop
  | solved {problem : Unification} {σ : Substitution} (rule : problem.step = .solved σ) :
      EndsIn problem (some σ)
  | refused {problem : Unification} (rule : problem.step = .refused) : EndsIn problem none
  | next {problem later : Unification} {result : Option Substitution}
      (rule : problem.step = .next later) (rest : EndsIn later result) : EndsIn problem result

/-- The rules leave no choice. -/
theorem EndsIn.unique {problem : Unification} {result other : Option Substitution}
    (ends : EndsIn problem result) (endsToo : EndsIn problem other) : result = other := by
  induction ends with
  | solved rule | refused rule => cases endsToo <;> simp_all
  | next rule _ ih =>
      cases endsToo with
      | solved otherRule | refused otherRule => cases rule.symm.trans otherRule
      | next otherRule rest =>
          cases rule.symm.trans otherRule
          exact ih rest

theorem step_turn (f : FunctionSymbol) (ss : List Term) (v : Variable) (rest : Equations)
    (σ : Substitution) :
    step ⟨(.app f ss, .var v) :: rest, σ⟩ = .next ⟨(.var v, .app f ss) :: rest, σ⟩ := by
  simp [step]

/-- The rules end in what the solver gives. -/
theorem endsIn_solve (σ : Substitution) (equations : Equations) :
    EndsIn ⟨equations, σ⟩ (solve σ equations) := by
  fun_induction solve σ equations with
  | case1 σ => exact .solved rfl
  | case2 σ s rest ih => exact .next (by simp [step]) ih
  | case3 σ rest v t mentioned different => exact .refused (by simp [step, different, mentioned])
  | case4 σ rest v t notMentioned different ih =>
      exact .next (by simp [step, different, notMentioned]) ih
  | case5 σ rest f ss v mentioned different =>
      refine .next (step_turn ..) (.refused ?_)
      simp [step, Ne.symm different, mentioned]
  | case6 σ rest f ss v notMentioned different ih =>
      refine .next (step_turn ..) (.next ?_ ih)
      simp [step, Ne.symm different, notMentioned]
  | case7 σ rest ss f ts different ih => exact .next (by simp [step, different]) ih
  | case8 σ rest f ss g ts otherSymbol different => exact .refused (by simp [step, otherSymbol])

theorem endsIn_iff {σ : Substitution} {equations : Equations} {result : Option Substitution} :
    EndsIn ⟨equations, σ⟩ result ↔ result = solve σ equations :=
  ⟨fun ends => ends.unique (endsIn_solve σ equations), fun same => same ▸ endsIn_solve σ equations⟩

end Unification

/-! ## Most general unifiers -/

/-- A substitution of a kind through which every substitution of that kind
factors. -/
structure Substitution.IsMostGeneral (Unifies : Substitution → Prop) (σ : Substitution) :
    Prop where
  unifies : Unifies σ
  idempotent : ∀ t, σ.apply (σ.apply t) = σ.apply t
  factors : ∀ u, Unifies u → ∀ t, u.apply (σ.apply t) = u.apply t

/-- A result that is a most general unifier where there is a unifier. -/
structure IsUnification (Unifies : Substitution → Prop) (result : Option Substitution) :
    Prop where
  mostGeneral : ∀ σ, result = some σ → σ.IsMostGeneral Unifies
  eq_none_iff : result = none ↔ ∀ u, ¬Unifies u

/-- It is enough that a result unifies, and that every unifier factors through
one. -/
theorem IsUnification.of_factors {Unifies : Substitution → Prop} {result : Option Substitution}
    (sound : ∀ σ, result = some σ → Unifies σ)
    (complete : ∀ u, Unifies u →
      ∃ σ, result = some σ ∧ ∀ t, u.apply (σ.apply t) = u.apply t) :
    IsUnification Unifies result := by
  have factors (σ : Substitution) (isResult : result = some σ) (u : Substitution)
      (unifies : Unifies u) : ∀ t, u.apply (σ.apply t) = u.apply t := by
    obtain ⟨τ, isToo, factors⟩ := complete u unifies
    cases isResult.symm.trans isToo
    exact factors
  refine ⟨fun σ isResult => ?_, fun isNone u unifies => ?_, fun noUnifier => ?_⟩
  · have unifies := sound σ isResult
    exact ⟨unifies, factors σ isResult σ unifies, factors σ isResult⟩
  · obtain ⟨σ, isResult, -⟩ := complete u unifies
    cases isNone.symm.trans isResult
  · cases isResult : result with
    | none => rfl
    | some σ => exact absurd (sound σ isResult) (noUnifier σ)

namespace Term

variable {arity : FunctionSymbol → Nat}

/-- What solves an equation makes its sides equal. -/
theorem apply_eq_of_solve {s t : Term} {σ : Substitution} (sHas : s.HasArities arity)
    (tHas : t.HasArities arity) (solved : solve .empty [(s, t)] = some σ) :
    σ.apply s = σ.apply t := by
  have has : Equations.Have (HasArities arity) [(s, t)] := by
    simpa [Equations.Have] using ⟨sHas, tHas⟩
  obtain ⟨image, sides, refines⟩ := solve_solves solved has
  have same := sides.unified (s, t) (List.mem_singleton_self _)
  rw [refines, refines, Substitution.apply_eq_replace, Substitution.apply_eq_replace,
    Substitution.image_empty, replace_self, replace_self]
  exact same

/-- The shortcut for ground terms agrees with the rules. -/
theorem unify_eq_solve {s t : Term} (sHas : s.HasArities arity) (tHas : t.HasArities arity) :
    s.unify t = solve .empty [(s, t)] := by
  unfold unify
  split
  · rename_i bothGround
    obtain ⟨sGround, tGround⟩ := Bool.and_eq_true_iff.mp bothGround
    split
    · rename_i same
      subst same
      have dropped : Unification.step ⟨[(s, s)], .empty⟩ = .next ⟨[], .empty⟩ := by
        simp [Unification.step]
      exact Unification.endsIn_iff.mp (.next dropped (.solved rfl))
    · rename_i different
      cases solved : solve .empty [(s, t)] with
      | none => rfl
      | some σ =>
          have same := apply_eq_of_solve sHas tHas solved
          rw [Substitution.apply_eq_replace, Substitution.apply_eq_replace,
            replace_of_isGround sGround, replace_of_isGround tGround] at same
          exact absurd same different
  · rfl

theorem isUnification_unify {s t : Term} (sHas : s.HasArities arity) (tHas : t.HasArities arity) :
    IsUnification (fun u => u.apply s = u.apply t) (s.unify t) := by
  rw [unify_eq_solve sHas tHas]
  refine .of_factors (fun σ => apply_eq_of_solve sHas tHas) fun u same => ?_
  have unified : Equations.UnifiedBy u.image [(s, t)] := by
    simpa [Equations.UnifiedBy, Substitution.apply_eq_replace] using same
  obtain ⟨σ, solved, factors⟩ := exists_solve unified
  refine ⟨σ, solved, fun r => ?_⟩
  simpa [Substitution.apply_eq_replace] using factors r

end Term

namespace Atom

variable {arity : FunctionSymbol → Nat}

theorem apply_eq_replace (σ : Substitution) (a : Atom) : a.apply σ = a.replace σ.image :=
  congrArg (Atom.mk a.predicate) (List.map_congr_left fun t _ => σ.apply_eq_replace t)

theorem isUnification_unify {a b : Atom} (aHas : a.HasArities arity) (bHas : b.HasArities arity) :
    IsUnification (fun u => a.apply u = b.apply u) (a.unify b) := by
  refine .of_factors (fun σ unified => apply_eq_of_hasArities unified aHas bHas) fun u same => ?_
  simp only [apply_eq_replace] at same
  obtain ⟨σ, unified, factors⟩ := exists_unify same
  refine ⟨σ, unified, fun t => ?_⟩
  rw [Substitution.apply_eq_replace, Substitution.apply_eq_replace, Term.replace_replace,
    funext factors, Substitution.apply_eq_replace]

end Atom

/-- Where every symbol has one number of arguments, unifying two terms or two
atoms comes to an end under the rules and gives a most general unifier if there is
a unifier, and nothing otherwise.  Terms are unified by the rules from the one
equation between them, ground or not, and atoms on one predicate by the rules from
the equations between their arguments. -/
theorem unification_ends_in_mostGeneral (arity : FunctionSymbol → Nat) :
    (∀ s t : Term, s.HasArities arity → t.HasArities arity →
      (∀ result, Unification.EndsIn ⟨[(s, t)], .empty⟩ result ↔ result = s.unify t) ∧
        IsUnification (fun u => u.apply s = u.apply t) (s.unify t)) ∧
      ∀ a b : Atom, a.HasArities arity → b.HasArities arity →
        (a.predicate = b.predicate → a.args.length = b.args.length →
          ∀ result, Unification.EndsIn ⟨a.args.zip b.args, .empty⟩ result ↔
            result = a.unify b) ∧
        (a.predicate ≠ b.predicate → a.unify b = none) ∧
        IsUnification (fun u => a.apply u = b.apply u) (a.unify b) := by
  refine ⟨fun s t sHas tHas => ⟨fun result => ?_, Term.isUnification_unify sHas tHas⟩,
    fun a b aHas bHas => ⟨fun samePredicate sameLength result => ?_, fun different => ?_,
      Atom.isUnification_unify aHas bHas⟩⟩
  · rw [Term.unify_eq_solve sHas tHas, Unification.endsIn_iff]
  · rw [Atom.unify, if_neg (by simp [samePredicate, sameLength]), Unification.endsIn_iff]
  · rw [Atom.unify, if_pos (.inl different)]

/-- With a binary `g`, a unary `f` and a constant `b`, the terms `g(x, f(x))` and
`g(b, y)` have a most general unifier, which binds `x` to `b` and `y` to `f(b)`, and so
have the atoms `p(x, f(x))` and `p(b, y)`.  The atoms `p(x, f(x))` and `p(f(y), y)` have
no unifier. -/
theorem unification_ends_in_mostGeneral_pair :
    let arity (f : FunctionSymbol) : Nat := [2, 1, 0].getD f.index 0
    let b := Term.app ⟨2⟩ []
    let left := [Term.var ⟨0⟩, .app ⟨1⟩ [.var ⟨0⟩]]
    let right := [b, .var ⟨1⟩]
    let clash := [.app ⟨1⟩ [.var ⟨1⟩], .var ⟨1⟩]
    let σ : Substitution := ⟨[(⟨0⟩, b), (⟨1⟩, .app ⟨1⟩ [b])]⟩
    (Term.HasArities arity (.app ⟨0⟩ left) ∧ Term.HasArities arity (.app ⟨0⟩ right) ∧
      σ.IsMostGeneral fun u => u.apply (.app ⟨0⟩ left) = u.apply (.app ⟨0⟩ right)) ∧
    Atom.HasArities arity ⟨⟨0⟩, left⟩ ∧ Atom.HasArities arity ⟨⟨0⟩, right⟩ ∧
      Atom.HasArities arity ⟨⟨0⟩, clash⟩ ∧
      (σ.IsMostGeneral fun u => Atom.apply u ⟨⟨0⟩, left⟩ = Atom.apply u ⟨⟨0⟩, right⟩) ∧
      ∀ u, Atom.apply u ⟨⟨0⟩, left⟩ ≠ Atom.apply u ⟨⟨0⟩, clash⟩ := by
  intro arity b left right clash σ
  obtain ⟨ofTerms, ofAtoms⟩ := unification_ends_in_mostGeneral arity
  have sHas : Term.HasArities arity (.app ⟨0⟩ left) := by simp [left, arity]
  have tHas : Term.HasArities arity (.app ⟨0⟩ right) := by simp [right, b, arity]
  have leftHas : Atom.HasArities arity ⟨⟨0⟩, left⟩ := by simp [Atom.HasArities, left, arity]
  have rightHas : Atom.HasArities arity ⟨⟨0⟩, right⟩ := by
    simp [Atom.HasArities, right, b, arity]
  have clashHas : Atom.HasArities arity ⟨⟨0⟩, clash⟩ := by simp [Atom.HasArities, clash, arity]
  obtain ⟨rules, ofRules⟩ := ofTerms _ _ sHas tHas
  obtain ⟨atomRules, -, ofAtomRules⟩ := ofAtoms _ _ leftHas rightHas
  obtain ⟨clashRules, -, ofClashRules⟩ := ofAtoms _ _ leftHas clashHas
  have solved : Unification.EndsIn ⟨[(.app ⟨0⟩ left, .app ⟨0⟩ right)], .empty⟩ (some σ) :=
    .next rfl (.next rfl (.next rfl (.next rfl (.solved rfl))))
  have atomsSolved : Unification.EndsIn ⟨left.zip right, .empty⟩ (some σ) :=
    .next rfl (.next rfl (.next rfl (.solved rfl)))
  have refused : Unification.EndsIn ⟨left.zip clash, .empty⟩ none :=
    .next rfl (.next rfl (.refused rfl))
  exact ⟨⟨sHas, tHas, ofRules.mostGeneral _ ((rules _).mp solved).symm⟩,
    leftHas, rightHas, clashHas,
    ofAtomRules.mostGeneral _ ((atomRules rfl rfl _).mp atomsSolved).symm,
    ofClashRules.eq_none_iff.mp ((clashRules rfl rfl _).mp refused).symm⟩

end Entailment.FirstOrder
