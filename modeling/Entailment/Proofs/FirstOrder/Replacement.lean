import Entailment.FirstOrder.Clause
import Mathlib.Logic.Basic

/-!
# Laws of replacement

An application inside a replaced term is an instance of an application inside
the term or stands inside one of the terms that were put in.

Applying a substitution is replacing all variables at once: the shortcuts for
the empty substitution and for ground terms change nothing.  Composing a
substitution with a binding is applying one after the other.
-/

namespace Entailment.FirstOrder

namespace Term

variable {t : Term} {f : FunctionSymbol} {args : List Term}

/-! ## Applications inside a term -/

/-- The application of `f` to `args` occurs in a term. -/
inductive HasApplication (f : FunctionSymbol) (args : List Term) : Term → Prop where
  | here : HasApplication f args (app f args)
  | inside {g : FunctionSymbol} {ts : List Term} {t : Term} (mem : t ∈ ts)
      (occurs : HasApplication f args t) : HasApplication f args (app g ts)

@[simp]
theorem not_hasApplication_var {v : Variable} : ¬HasApplication f args (var v) := by
  intro occurs
  cases occurs

/-- Variables of the arguments of an application are variables of the term. -/
theorem HasApplication.mem_vars (occurs : HasApplication f args t) {s : Term} (mem : s ∈ args)
    {v : Variable} (vMem : v ∈ s.vars) : v ∈ t.vars := by
  induction occurs with
  | here => exact vars_app f args ▸ List.mem_flatMap.mpr ⟨s, mem, vMem⟩
  | inside inList _ ih => exact vars_app _ _ ▸ List.mem_flatMap.mpr ⟨_, inList, ih⟩

theorem size_lt_of_mem (mem : t ∈ args) : t.size < (app f args).size := by
  have inArgs : t.size ≤ sizeOfArgs args := by
    induction args with
    | nil => cases mem
    | cons s ss ih =>
        simp only [sizeOfArgs]
        rcases List.mem_cons.mp mem with rfl | later
        · omega
        · have := ih later
          omega
  simp only [size]
  omega

/-- The arguments of an application inside a term are smaller than the term. -/
theorem HasApplication.size_lt (occurs : HasApplication f args t) {s : Term} (mem : s ∈ args) :
    s.size < t.size := by
  induction occurs with
  | here => exact size_lt_of_mem mem
  | inside inList _ ih => exact Nat.lt_trans ih (size_lt_of_mem inList)

/-- Where an application inside a replaced term comes from. -/
theorem HasApplication.of_replace {image : Variable → Term}
    (occurs : HasApplication f args (t.replace image)) :
    (∃ ss, HasApplication f ss t ∧ args = ss.map (replace image)) ∨
      ∃ v ∈ t.vars, HasApplication f args (image v) := by
  induction t with
  | var v => exact .inr ⟨v, by simp, occurs⟩
  | app g ts ih =>
      rw [replace_app] at occurs
      cases occurs with
      | here => exact .inl ⟨ts, .here, rfl⟩
      | inside mem occurs =>
          obtain ⟨t, tMem, rfl⟩ := List.mem_map.mp mem
          rcases ih t tMem occurs with ⟨ss, inTerm, isInstance⟩ | ⟨v, vMem, inImage⟩
          · exact .inl ⟨ss, .inside tMem inTerm, isInstance⟩
          · exact .inr ⟨v, vars_app g ts ▸ List.mem_flatMap.mpr ⟨t, tMem, vMem⟩, inImage⟩

end Term

namespace Substitution

@[simp]
theorem image_empty : Substitution.empty.image = .var := rfl

@[simp]
theorem apply_var (σ : Substitution) (v : Variable) : σ.apply (.var v) = σ.image v := by
  rw [apply_eq_replace, Term.replace_var]

theorem lookup_insertBinding (v w : Variable) (t : Term) (bindings : List (Variable × Term)) :
    lookup w (insertBinding v t bindings) = if v = w then some t else lookup w bindings := by
  induction bindings with
  | nil => rfl
  | cons binding rest ih =>
      obtain ⟨x, s⟩ := binding
      unfold insertBinding
      split
      · rfl
      · split
        · rename_i same
          subst same
          by_cases equal : v = w <;> simp [lookup, equal]
        · rename_i different
          by_cases equal : v = w
          · subst equal
            simp only [lookup, if_neg (Ne.symm different), ih, if_true]
          · simp only [lookup, ih, if_neg equal]

/-- A binding that is inserted gives the image of its variable and no other. -/
theorem image_insert (v w : Variable) (t : Term) (σ : Substitution) :
    (σ.insert v t).image w = if v = w then t else σ.image w := by
  simp only [image, get?, insert, lookup_insertBinding]
  split <;> rfl

@[simp]
theorem image_insert_self (v : Variable) (t : Term) (σ : Substitution) :
    (σ.insert v t).image v = t := by
  rw [image_insert, if_pos rfl]

theorem image_insert_of_ne {v w : Variable} (different : v ≠ w) (t : Term) (σ : Substitution) :
    (σ.insert v t).image w = σ.image w := by
  rw [image_insert, if_neg different]

/-- Changing all terms of a substitution changes what it gives a variable. -/
theorem get?_map (f : Term → Term) (σ : Substitution) (v : Variable) :
    (Substitution.mk (σ.bindings.map fun (w, s) => (w, f s))).get? v = (σ.get? v).map f := by
  obtain ⟨bindings⟩ := σ
  unfold get?
  induction bindings with
  | nil => rfl
  | cons binding rest ih =>
      simp only [List.map_cons, lookup]
      split
      · rfl
      · exact ih

/-- A composed substitution gives a variable its old image with `v` replaced. -/
theorem image_compose (σ : Substitution) (v w : Variable) (t : Term) :
    (σ.compose v t).image w = (single v t).apply (σ.image w) := by
  have old : v ≠ w → ((σ.get? w).map (single v t).apply).getD (.var w) =
      (single v t).apply (σ.image w) := by
    intro different
    unfold image
    cases σ.get? w with
    | some s => rfl
    | none => simp [image_single, different]
  unfold compose
  simp only [get?_map]
  cases bound : σ.get? v with
  | some s =>
      simp only [Option.map_some, image, get?_map]
      by_cases same : v = w
      · subst same
        simp [bound]
      · exact old same
  | none =>
      simp only [Option.map_none, image_insert]
      by_cases same : v = w
      · subst same
        have unbound : σ.image v = .var v := by simp [image, bound]
        rw [if_pos rfl, unbound, apply_var, image_single, if_pos rfl]
      · rw [if_neg same]
        simp only [image, get?_map]
        exact old same

/-- Applying a composed substitution is applying one after the other. -/
theorem apply_compose (σ : Substitution) (v : Variable) (t s : Term) :
    (σ.compose v t).apply s = (single v t).apply (σ.apply s) := by
  simp only [apply_eq_replace, Term.replace_replace]
  refine Term.replace_congr fun w _ => ?_
  rw [image_compose, apply_eq_replace]

/-- Applying a substitution replaces every variable by the term it is bound to, all at once.
After a composition with a binding of `x` this is what it was before, with `x` replaced in the
result, bound or not. -/
theorem apply_replaces_and_composes (σ : Substitution) (x : Variable) (r t : Term) :
    σ.apply t = t.replace (fun v => (σ.get? v).getD (.var v)) ∧
      (σ.compose x r).apply t = (σ.apply t).replace fun v => if v = x then r else .var v := by
  refine ⟨apply_eq_replace σ t, ?_⟩
  rw [apply_compose, apply_eq_replace (single x r)]
  refine Term.replace_congr fun v _ => ?_
  simp only [image_single, eq_comm]

end Substitution

end Entailment.FirstOrder
