import Entailment.Proofs.FirstOrder.Unifier

/-!
# Unifiers are found and are most general

Equations that some replacement makes equal are solved, and the replacement
factors through the solution: it gives a term and the instance of the term by the
solution the same value.  A solver that binds a variable loses nothing, because
the replacement gives the variable the value of the term it is bound to.  The
equations that the solver refuses have no solution: different symbols stay
different, and a term is larger than a variable inside it, whatever is put in.
-/

namespace Entailment.FirstOrder

namespace Term

/-- What is put in for a variable of a term is not larger than the term it is put
into, and is smaller unless the term is the variable. -/
theorem size_lt_of_mem_vars (image : Variable → Term) {v : Variable} {t : Term}
    (mem : v ∈ t.vars) (different : t ≠ .var v) : (image v).size < (t.replace image).size := by
  induction t with
  | var w =>
      rw [vars_var, List.mem_singleton] at mem
      exact absurd (congrArg Term.var mem.symm) different
  | app f args ih =>
      rw [vars_app, List.mem_flatMap] at mem
      obtain ⟨s, sMem, vMem⟩ := mem
      have inside : (s.replace image).size < ((app f args).replace image).size := by
        rw [replace_app]
        exact size_lt_of_mem (List.mem_map_of_mem sMem)
      by_cases isVariable : s = .var v
      · rw [isVariable] at inside
        exact inside
      · exact Nat.lt_trans (ih s sMem vMem isVariable) inside

/-- No replacement makes a variable equal to a larger term with it inside. -/
theorem not_mentions_of_replace_eq {image : Variable → Term} {v : Variable} {t : Term}
    (same : image v = t.replace image) (different : t ≠ .var v) : ¬t.mentions v = true := by
  intro mentioned
  have larger := size_lt_of_mem_vars image ((mentions_iff v t).mp mentioned) different
  rw [same] at larger
  exact Nat.lt_irrefl _ larger

/-- A replacement that makes a variable equal to a term does not see whether the
term is put in for the variable first. -/
theorem replace_apply_single {image : Variable → Term} {v : Variable} {t : Term}
    (same : image v = t.replace image) (s : Term) :
    ((Substitution.single v t).apply s).replace image = s.replace image := by
  rw [← bindThen.replace_eq]
  refine replace_congr fun w _ => ?_
  by_cases isIt : v = w
  · rw [← isIt, bindThen.self_eq, same]
  · exact bindThen.of_ne isIt

end Term

namespace Equations

variable {image : Variable → Term}

/-- Putting a term in for a variable keeps what unifies the equations. -/
theorem UnifiedBy.replace {equations : Equations} (unified : equations.UnifiedBy image)
    {v : Variable} {t : Term} (same : image v = t.replace image) :
    (equations.replace v t).UnifiedBy image := by
  intro equation mem
  obtain ⟨⟨l, r⟩, pairMem, rfl⟩ := List.mem_map.mp mem
  rw [Term.replace_apply_single same, Term.replace_apply_single same]
  exact unified _ pairMem

/-- Lists of terms that become equal are equal pair by pair. -/
theorem unifiedBy_zip {ss ts : List Term}
    (same : ss.map (Term.replace image) = ts.map (Term.replace image)) :
    UnifiedBy image (ss.zip ts) := by
  induction ss generalizing ts with
  | nil => simp [UnifiedBy]
  | cons s ss ih =>
      cases ts with
      | nil => simp [UnifiedBy]
      | cons t ts =>
          simp only [List.map_cons, List.cons.injEq] at same
          exact unifiedBy_cons.mpr ⟨same.1, ih same.2⟩

theorem UnifiedBy.decompose {ss ts : List Term} {rest : Equations}
    (same : ss.map (Term.replace image) = ts.map (Term.replace image))
    (unified : rest.UnifiedBy image) : UnifiedBy image ((ss.zip ts).reverse ++ rest) := by
  intro equation mem
  rcases List.mem_append.mp mem with inArgs | inRest
  · exact unifiedBy_zip same equation (List.mem_reverse.mp inArgs)
  · exact unified equation inRest

end Equations

/-- Equations that a replacement unifies are solved, and the replacement factors
through the solution. -/
theorem exists_solve {image : Variable → Term} {σ : Substitution} {equations : Equations}
    (unified : equations.UnifiedBy image) :
    ∃ τ, solve σ equations = some τ ∧
      ∀ t, (τ.apply t).replace image = (σ.apply t).replace image := by
  fun_induction solve σ equations with
  | case1 σ => exact ⟨σ, rfl, fun _ => rfl⟩
  | case2 σ s rest ih => exact ih (Equations.unifiedBy_cons.mp unified).2
  | case3 σ rest v t mentioned different =>
      obtain ⟨same, -⟩ := Equations.unifiedBy_cons.mp unified
      exact absurd mentioned (Term.not_mentions_of_replace_eq same (Ne.symm different))
  | case4 σ rest v t notMentioned different ih =>
      obtain ⟨same, restUnified⟩ := Equations.unifiedBy_cons.mp unified
      obtain ⟨τ, solved, factors⟩ := ih (restUnified.replace same)
      refine ⟨τ, solved, fun s => ?_⟩
      rw [factors, Substitution.apply_compose, Term.replace_apply_single same]
  | case5 σ rest f ss v mentioned different =>
      obtain ⟨same, -⟩ := Equations.unifiedBy_cons.mp unified
      exact absurd mentioned (Term.not_mentions_of_replace_eq same.symm different)
  | case6 σ rest f ss v notMentioned different ih =>
      obtain ⟨same, restUnified⟩ := Equations.unifiedBy_cons.mp unified
      obtain ⟨τ, solved, factors⟩ := ih (restUnified.replace same.symm)
      refine ⟨τ, solved, fun s => ?_⟩
      rw [factors, Substitution.apply_compose, Term.replace_apply_single same.symm]
  | case7 σ rest ss f ts different ih =>
      obtain ⟨same, restUnified⟩ := Equations.unifiedBy_cons.mp unified
      rw [Term.replace_app, Term.replace_app] at same
      exact ih (.decompose (Term.app.inj same).2 restUnified)
  | case8 σ rest f ss g ts otherSymbol different =>
      obtain ⟨same, -⟩ := Equations.unifiedBy_cons.mp unified
      rw [Term.replace_app, Term.replace_app] at same
      exact absurd (Term.app.inj same).1 otherSymbol

/-! ## Atoms -/

/-- Replace every variable of an atom at once. -/
def Atom.replace (image : Variable → Term) (a : Atom) : Atom :=
  ⟨a.predicate, a.args.map (Term.replace image)⟩

namespace Atom

theorem replace_congr {image other : Variable → Term} {a : Atom}
    (same : ∀ v ∈ a.vars, image v = other v) : a.replace image = a.replace other := by
  refine congrArg (Atom.mk a.predicate) (List.map_congr_left fun t tMem => ?_)
  refine Term.replace_congr fun v vMem => same v ?_
  rw [vars, Term.varsOfArgs_eq]
  exact List.mem_flatMap.mpr ⟨t, tMem, vMem⟩

theorem replace_apply (σ : Substitution) (image : Variable → Term) (a : Atom) :
    (a.apply σ).replace image = a.replace fun v => (σ.image v).replace image := by
  refine congrArg (Atom.mk a.predicate) ?_
  rw [apply, List.map_map]
  refine List.map_congr_left fun t _ => ?_
  rw [Function.comp_apply, Substitution.apply_eq_replace, Term.replace_replace]

/-- Replacing every variable by itself changes nothing. -/
@[simp]
theorem replace_self (a : Atom) : a.replace .var = a := by
  rw [replace, List.map_congr_left fun t _ => Term.replace_self t, List.map_id']

theorem replace_of_isGround {a : Atom} (ground : a.isGround = true) (image : Variable → Term) :
    a.replace image = a := by
  have noVariable : ∀ v ∈ a.vars, image v = .var v := by
    rw [vars, Term.varsOfArgs_eq_nil_of_areGround ground]
    simp
  rw [replace_congr noVariable, replace_self]

/-- Atoms that a replacement makes equal are unified, and the replacement factors
through the unifier. -/
theorem exists_unify {image : Variable → Term} {a b : Atom}
    (same : a.replace image = b.replace image) :
    ∃ σ, a.unify b = some σ ∧ ∀ v, (σ.image v).replace image = image v := by
  have sameArgs : a.args.map (Term.replace image) = b.args.map (Term.replace image) :=
    (Atom.mk.inj same).2
  have sameLength : a.args.length = b.args.length := by
    simpa using congrArg List.length sameArgs
  have samePredicate : a.predicate = b.predicate := (Atom.mk.inj same).1
  obtain ⟨σ, solved, factors⟩ := exists_solve (Equations.unifiedBy_zip sameArgs)
  refine ⟨σ, ?_, fun v => ?_⟩
  · rw [unify, if_neg (by simp [samePredicate, sameLength])]
    exact solved
  · simpa [Substitution.apply_eq_replace] using factors (.var v)

end Atom

end Entailment.FirstOrder
