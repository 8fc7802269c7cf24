import Entailment.Proofs.FirstOrder.Unifier
import Entailment.Proofs.Order.Embedding
import Mathlib.Order.Monotone.Basic

/-!
# Renumbering variables and symbols

Variables and symbols are numbers, and nothing is ever done with a number but to
compare it with another one.  So when new numbers are given in the same order, all
functions on terms commute with the change.  This holds in particular for
unification, whose result is renumbered like its equations.
-/

namespace Entailment.FirstOrder

open Sorted (Embeds)

/-- New numbers for variables, function symbols and predicate symbols, in the order
of the old ones. -/
structure Renumbering where
  onVariable : Variable → Variable
  onFunction : FunctionSymbol → FunctionSymbol
  onPredicate : PredicateSymbol → PredicateSymbol
  embedsVariables : Embeds onVariable
  embedsFunctions : Embeds onFunction
  embedsPredicates : Embeds onPredicate

theorem compare_of_strictMono {place : Nat → Nat} (mono : StrictMono place) (first second : Nat) :
    compare (place first) (place second) = compare first second := by
  rcases Nat.lt_trichotomy first second with less | rfl | greater
  · rw [Nat.compare_eq_lt.mpr less, Nat.compare_eq_lt.mpr (mono less)]
  · rw [Nat.compare_eq_eq.mpr rfl, Nat.compare_eq_eq.mpr rfl]
  · rw [Nat.compare_eq_gt.mpr greater, Nat.compare_eq_gt.mpr (mono greater)]

namespace Renumbering

/-- The renumbering that takes the numbers of each kind to the places given. -/
def ofPlaces {vars functions predicates : Nat → Nat} (onVars : StrictMono vars)
    (onFunctions : StrictMono functions) (onPredicates : StrictMono predicates) : Renumbering where
  onVariable v := ⟨vars v.index⟩
  onFunction f := ⟨functions f.index⟩
  onPredicate p := ⟨predicates p.index⟩
  embedsVariables _ _ := compare_of_strictMono onVars ..
  embedsFunctions _ _ := compare_of_strictMono onFunctions ..
  embedsPredicates _ _ := compare_of_strictMono onPredicates ..

variable (ρ : Renumbering)

@[simp]
theorem onVariable_inj {v w : Variable} : ρ.onVariable v = ρ.onVariable w ↔ v = w :=
  ρ.embedsVariables.injective.eq_iff

@[simp]
theorem onFunction_inj {f g : FunctionSymbol} : ρ.onFunction f = ρ.onFunction g ↔ f = g :=
  ρ.embedsFunctions.injective.eq_iff

@[simp]
theorem onPredicate_inj {p q : PredicateSymbol} : ρ.onPredicate p = ρ.onPredicate q ↔ p = q :=
  ρ.embedsPredicates.injective.eq_iff

theorem onVariable_lt {v w : Variable} :
    (ρ.onVariable v).index < (ρ.onVariable w).index ↔ v.index < w.index := by
  have same := ρ.embedsVariables v w
  rw [← Nat.compare_eq_lt, ← Nat.compare_eq_lt]
  exact iff_of_eq (congrArg (· = .lt) same)

end Renumbering

variable (ρ : Renumbering)

/-! ## Terms -/

namespace Term

mutual

/-- A term over the new numbers. -/
def renumber (ρ : Renumbering) : Term → Term
  | var v => var (ρ.onVariable v)
  | app f args => app (ρ.onFunction f) (renumberArgs ρ args)

/-- Some terms over the new numbers. -/
def renumberArgs (ρ : Renumbering) : List Term → List Term
  | [] => []
  | t :: ts => renumber ρ t :: renumberArgs ρ ts

end

@[simp]
theorem renumber_var (v : Variable) : (var v).renumber ρ = var (ρ.onVariable v) := rfl

theorem renumberArgs_eq (args : List Term) : renumberArgs ρ args = args.map (renumber ρ) := by
  induction args with
  | nil => rfl
  | cons t ts ih => rw [renumberArgs, ih, List.map_cons]

@[simp]
theorem renumber_app (f : FunctionSymbol) (args : List Term) :
    (app f args).renumber ρ = app (ρ.onFunction f) (args.map (renumber ρ)) :=
  congrArg (app _) (renumberArgs_eq ρ args)

mutual

theorem compareTerm_renumber :
    (s t : Term) → compareTerm (s.renumber ρ) (t.renumber ρ) = compareTerm s t
  | var v, var w => ρ.embedsVariables v w
  | var _, app _ _ => rfl
  | app _ _, var _ => rfl
  | app f ss, app g ts => by
      simp only [renumber, compareTerm, ρ.embedsFunctions f g, compareArgs_renumber ss ts]

theorem compareArgs_renumber :
    (ss ts : List Term) →
      compareArgs (renumberArgs ρ ss) (renumberArgs ρ ts) = compareArgs ss ts
  | [], [] => rfl
  | [], _ :: _ => rfl
  | _ :: _, [] => rfl
  | s :: ss, t :: ts => by
      simp only [renumberArgs, compareArgs, compareTerm_renumber s t, compareArgs_renumber ss ts]

end

theorem embeds_renumber : Embeds (renumber ρ) := compareTerm_renumber ρ

@[simp]
theorem renumber_inj {s t : Term} : s.renumber ρ = t.renumber ρ ↔ s = t :=
  (embeds_renumber ρ).injective.eq_iff

@[simp]
theorem vars_renumber (t : Term) : (t.renumber ρ).vars = t.vars.map ρ.onVariable := by
  induction t with
  | var v => rfl
  | app f args ih =>
      rw [renumber_app, vars_app, vars_app, List.flatMap_map, List.map_flatMap, List.flatMap_def,
        List.flatMap_def, List.map_congr_left ih]

@[simp]
theorem mentions_renumber (v : Variable) (t : Term) :
    (t.renumber ρ).mentions (ρ.onVariable v) = t.mentions v := by
  rw [Bool.eq_iff_iff, mentions_iff, mentions_iff, vars_renumber]
  simp

/-- A replacement in a renumbered term, where the terms that are put in are
renumbered in the same way but for their variables. -/
theorem replace_renumber {ρ other : Renumbering} (sameFunctions : ρ.onFunction = other.onFunction)
    {image renumbered : Variable → Term} {t : Term}
    (images : ∀ v ∈ t.vars, renumbered (ρ.onVariable v) = (image v).renumber other) :
    (t.renumber ρ).replace renumbered = (t.replace image).renumber other := by
  induction t with
  | var v => exact images v (by simp)
  | app f args ih =>
      simp only [renumber_app, replace_app, List.map_map, sameFunctions, app.injEq, true_and]
      refine List.map_congr_left fun t mem => ih t mem fun v vMem => images v ?_
      simpa using ⟨t, mem, vMem⟩

end Term

/-! ## Substitutions -/

namespace Substitution

/-- A substitution over the new numbers. -/
def renumber (ρ : Renumbering) (σ : Substitution) : Substitution :=
  ⟨σ.bindings.map fun (v, t) => (ρ.onVariable v, t.renumber ρ)⟩

@[simp]
theorem renumber_empty : Substitution.empty.renumber ρ = .empty := rfl

@[simp]
theorem get?_renumber (σ : Substitution) (v : Variable) :
    (σ.renumber ρ).get? (ρ.onVariable v) = (σ.get? v).map (Term.renumber ρ) := by
  obtain ⟨bindings⟩ := σ
  simp only [get?, renumber]
  induction bindings with
  | nil => rfl
  | cons binding rest ih =>
      simp only [List.map_cons, lookup, Renumbering.onVariable_inj]
      split
      · rfl
      · exact ih

@[simp]
theorem image_renumber (σ : Substitution) (v : Variable) :
    (σ.renumber ρ).image (ρ.onVariable v) = (σ.image v).renumber ρ := by
  simp only [image, get?_renumber]
  cases σ.get? v <;> rfl

@[simp]
theorem apply_renumber (σ : Substitution) (t : Term) :
    (σ.renumber ρ).apply (t.renumber ρ) = (σ.apply t).renumber ρ := by
  rw [apply_eq_replace, apply_eq_replace]
  exact Term.replace_renumber rfl fun v _ => image_renumber ρ σ v

@[simp]
theorem insert_renumber (v : Variable) (t : Term) (σ : Substitution) :
    (σ.renumber ρ).insert (ρ.onVariable v) (t.renumber ρ) = (σ.insert v t).renumber ρ := by
  obtain ⟨bindings⟩ := σ
  simp only [insert, renumber, Substitution.mk.injEq]
  induction bindings with
  | nil => rfl
  | cons binding rest ih =>
      simp only [List.map_cons, insertBinding, Renumbering.onVariable_lt,
        Renumbering.onVariable_inj]
      split
      · rfl
      · split
        · rfl
        · rw [ih, List.map_cons]

@[simp]
theorem single_renumber (v : Variable) (t : Term) :
    single (ρ.onVariable v) (t.renumber ρ) = (single v t).renumber ρ := rfl

/-- A composition keeps the bindings after the replacement, and adds one for a variable
that has none. -/
theorem compose_eq {v : Variable} {t : Term} {σ substituted : Substitution}
    (isSubstituted : substituted = ⟨σ.bindings.map (Prod.map id (single v t).apply)⟩) :
    σ.compose v t = (substituted.get? v).elim (substituted.insert v t) fun _ => substituted := by
  subst isSubstituted
  simp only [compose]
  split
  · rename_i found
    exact found ▸ rfl
  · rename_i notFound
    exact notFound ▸ rfl

@[simp]
theorem compose_renumber (v : Variable) (t : Term) (σ : Substitution) :
    (σ.renumber ρ).compose (ρ.onVariable v) (t.renumber ρ) = (σ.compose v t).renumber ρ := by
  let substituted : Substitution := ⟨σ.bindings.map (Prod.map id (single v t).apply)⟩
  have renumbered : substituted.renumber ρ = ⟨(σ.renumber ρ).bindings.map
      (Prod.map id (single (ρ.onVariable v) (t.renumber ρ)).apply)⟩ := by
    refine congrArg Substitution.mk ?_
    simp only [substituted, renumber, List.map_map]
    exact List.map_congr_left fun binding _ =>
      congrArg (Prod.mk _) (apply_renumber ρ (single v t) binding.2).symm
  rw [@compose_eq v t σ substituted rfl, compose_eq renumbered, get?_renumber]
  cases substituted.get? v with
  | some s => rfl
  | none => exact insert_renumber ρ v t substituted

end Substitution

/-! ## Unification -/

/-- Equations over the new numbers. -/
def Equations.renumber (ρ : Renumbering) (equations : Equations) : Equations :=
  equations.map fun (s, t) => (s.renumber ρ, t.renumber ρ)

@[simp]
theorem Equations.renumber_nil : Equations.renumber ρ [] = [] := rfl

@[simp]
theorem Equations.renumber_cons (s t : Term) (rest : Equations) :
    Equations.renumber ρ ((s, t) :: rest) =
      (s.renumber ρ, t.renumber ρ) :: Equations.renumber ρ rest := rfl

@[simp]
theorem Equations.replace_renumber (v : Variable) (t : Term) (equations : Equations) :
    (equations.renumber ρ).replace (ρ.onVariable v) (t.renumber ρ) =
      (equations.replace v t).renumber ρ := by
  simp only [Equations.replace, Equations.renumber, List.map_map]
  refine List.map_congr_left fun equation _ => ?_
  simp

theorem Equations.zip_renumber (ss ts : List Term) :
    (ss.map (Term.renumber ρ)).zip (ts.map (Term.renumber ρ)) =
      Equations.renumber ρ (ss.zip ts) :=
  List.zip_map ..

section

variable {σ : Substitution} {v : Variable} {t : Term} {f g : FunctionSymbol} {ss ts : List Term}
  {rest : Equations}

theorem solve_var (different : Term.var v ≠ t) :
    solve σ ((.var v, t) :: rest) =
      if t.mentions v then none else solve (σ.compose v t) (Equations.replace v t rest) := by
  rw [solve.eq_def]
  simp only [if_neg different]

theorem solve_app_var :
    solve σ ((.app f ss, .var v) :: rest) =
      if (Term.app f ss).mentions v then none
      else solve (σ.compose v (.app f ss)) (Equations.replace v (.app f ss) rest) := by
  rw [solve.eq_def]
  simp only [reduceCtorEq, if_false]

theorem solve_app_app (different : Term.app f ss ≠ .app g ts) :
    solve σ ((.app f ss, .app g ts) :: rest) =
      if f = g then solve σ ((ss.zip ts).reverse ++ rest) else none := by
  rw [solve.eq_def]
  simp only [if_neg different]

end

/-- Renumbered equations have the renumbered solution. -/
theorem solve_renumber (σ : Substitution) (equations : Equations) :
    solve (σ.renumber ρ) (equations.renumber ρ) =
      (solve σ equations).map (Substitution.renumber ρ) := by
  fun_induction solve σ equations with
  | case1 σ => simp [solve]
  | case2 σ s rest ih =>
      rw [Equations.renumber_cons, solve.eq_def]
      simpa only [if_true] using ih
  | case3 σ rest v t mentioned different =>
      have apart := mt (Term.renumber_inj ρ).mp different
      rw [Equations.renumber_cons]
      rw [Term.renumber_var] at apart ⊢
      rw [solve_var apart, Term.mentions_renumber, if_pos mentioned, Option.map_none]
  | case4 σ rest v t notMentioned different ih =>
      have apart := mt (Term.renumber_inj ρ).mp different
      rw [Equations.renumber_cons]
      rw [Term.renumber_var] at apart ⊢
      rw [solve_var apart, Term.mentions_renumber, if_neg notMentioned,
        Substitution.compose_renumber, Equations.replace_renumber, ih]
  | case5 σ rest f ss v mentioned =>
      rw [Equations.renumber_cons, Term.renumber_app, Term.renumber_var, solve_app_var,
        ← Term.renumber_app, Term.mentions_renumber, if_pos mentioned,
        Option.map_none]
  | case6 σ rest f ss v notMentioned _ ih =>
      rw [Equations.renumber_cons, Term.renumber_app, Term.renumber_var, solve_app_var,
        ← Term.renumber_app, Term.mentions_renumber, if_neg notMentioned,
        Substitution.compose_renumber, Equations.replace_renumber, ih]
  | case7 σ rest ss f ts different ih =>
      have apart := mt (Term.renumber_inj ρ).mp different
      rw [Equations.renumber_cons]
      rw [Term.renumber_app, Term.renumber_app] at apart ⊢
      rw [solve_app_app apart, if_pos rfl, Equations.zip_renumber, ← ih]
      simp [Equations.renumber]
  | case8 σ rest f ss g ts otherSymbol different =>
      have apart := mt (Term.renumber_inj ρ).mp different
      rw [Equations.renumber_cons]
      rw [Term.renumber_app, Term.renumber_app] at apart ⊢
      rw [solve_app_app apart, if_neg (mt (ρ.onFunction_inj).mp otherSymbol), Option.map_none]

end Entailment.FirstOrder
