import Entailment.FirstOrder.Skolem
import Entailment.Proofs.FirstOrder.LoweringMeaning

/-!
# Skolemization keeps models

A model of a formula in negation normal form becomes a model of the Skolemized
formula by interpreting the new Skolem functions: for values of the universal
variables in scope, a Skolem function gives a value for which the body of its
quantifier is true.  The choice depends on the universal variables only, because
all that the body mentions is expressed in them.

What is put in for a variable is a variable or a new Skolem function applied to
universal variables, of which the free variables of the whole formula come
first.
-/

namespace Entailment.FirstOrder

variable {free binders : List Variable} {property : List Variable → Atom → Prop}
    {base signature extended before after : Signature} {σ : Substitution}
    {formula result : Formula Variable Atom} {v : Variable}

universe u

variable {D : Type u}

/-- What Skolemization puts in for a variable: a variable, or a function symbol
that is not in the base signature, of variables that begin with the free ones. -/
structure Term.IsSkolemImage (base signature : Signature) (free : List Variable) (t : Term) :
    Prop where
  isOver : t.IsOver signature
  shape : (∃ x, t = .var x) ∨ ∃ f arguments, base.functions.size ≤ f.index ∧
    free <+: arguments ∧ t = .app f (arguments.map .var)

theorem Term.IsSkolemImage.mono {t : Term} (isImage : t.IsSkolemImage base signature free)
    (grows : signature.GrowsTo extended) : t.IsSkolemImage base extended free :=
  ⟨isImage.isOver.mono grows, isImage.shape⟩

/-- A substitution that puts such terms of universal variables in for the
variables in scope. -/
structure Substitution.Skolemizes (base signature : Signature) (free universals : List Variable)
    (inScope : Variable → Prop) (σ : Substitution) : Prop where
  image : ∀ w, inScope w → (σ.image w).IsSkolemImage base signature free
  vars : ∀ w, inScope w → ∀ x ∈ (σ.image w).vars, x ∈ universals

namespace Substitution.Skolemizes

variable {base signature extended : Signature} {free universals : List Variable}
  {inScope : Variable → Prop} {σ : Substitution}

theorem mono (skolemizes : σ.Skolemizes base signature free universals inScope)
    (grows : signature.GrowsTo extended) : σ.Skolemizes base extended free universals inScope :=
  ⟨fun w scope => (skolemizes.image w scope).mono grows, skolemizes.vars⟩

/-- Putting a term in for the variable of a quantifier. -/
theorem insert (skolemizes : σ.Skolemizes base signature free universals inScope)
    (grows : signature.GrowsTo extended) {more : List Variable}
    (subset : ∀ x ∈ universals, x ∈ more) {t : Term} (isImage : t.IsSkolemImage base extended free)
    (vars : ∀ x ∈ t.vars, x ∈ more) :
    (σ.insert v t).Skolemizes base extended free more fun w => w = v ∨ inScope w := by
  constructor
  · intro w scope
    rw [image_insert]
    split
    · exact isImage
    · rename_i different
      have old := scope.resolve_left (Ne.symm different)
      exact (skolemizes.image w old).mono grows
  · intro w scope x mem
    rw [image_insert] at mem
    split at mem
    · exact vars x mem
    · rename_i different
      exact subset x (skolemizes.vars w (scope.resolve_left (Ne.symm different)) x mem)

/-- The valuation behind a substitution is the same in models that agree on the
signature, under valuations that agree on the universal variables. -/
theorem valuation_eq (skolemizes : σ.Skolemizes base signature free universals inScope)
    {M M' : Model D} (agree : M'.AgreesOn signature M) {ρ ρ' : Variable → D}
    (same : ∀ x ∈ universals, ρ x = ρ' x) {w : Variable} (scope : inScope w) :
    σ.valuation M ρ w = σ.valuation M' ρ' w :=
  (skolemizes.image w scope).isOver.value_eq agree.symm fun x mem =>
    same x (skolemizes.vars w scope x mem)

end Substitution.Skolemizes

/-- A formula with scoped atoms is true in the same cases in models that agree on
the signature, under valuations that agree on what is in scope. -/
theorem formulaHolds_iff_of_scoped
    (isScoped : ∀ binders a, property binders a → a.IsScoped signature free binders)
    (atoms : formula.EveryAtom property binders) {M M' : Model D} (agree : M.AgreesOn signature M')
    {ρ ρ' : Variable → D} (same : ∀ w, w ∈ binders ∨ w ∈ free → ρ w = ρ' w) :
    formulaHolds M ρ formula ↔ formulaHolds M' ρ' formula := by
  refine Formula.holds_congr (fun binders ρ ρ' => ∀ w, w ∈ binders ∨ w ∈ free → ρ w = ρ' w)
    ?_ ?_ atoms same
  · intro binders a ρ ρ' good same
    have scope := isScoped binders a good
    exact scope.isOver.holds_iff agree fun t tMem v vMem => same v (scope.inScope t tMem v vMem)
  · intro binders ρ ρ' binder d same w scope
    by_cases isIt : w = binder
    · rw [isIt, Function.update_self, Function.update_self]
    · rw [Function.update_of_ne isIt, Function.update_of_ne isIt]
      refine same w (scope.imp_left fun mem => ?_)
      exact (List.mem_cons.mp mem).resolve_left isIt

/-- An instance of an atom of a formula by what Skolemization puts in. -/
def Atom.IsSkolemInstance (property : List Variable → Atom → Prop) (base signature : Signature)
    (free : List Variable) (b : Atom) : Prop :=
  ∃ binders a τ, property binders a ∧ b = a.apply τ ∧
    ∀ w, w ∈ binders ∨ w ∈ free → (τ.image w).IsSkolemImage base signature free

theorem Atom.IsSkolemInstance.mono {b : Atom}
    (isInstance : b.IsSkolemInstance property base signature free)
    (grows : signature.GrowsTo extended) : b.IsSkolemInstance property base extended free := by
  obtain ⟨binders, a, τ, good, rfl, images⟩ := isInstance
  exact ⟨binders, a, τ, good, rfl, fun w scope => (images w scope).mono grows⟩

theorem Atom.IsSkolemInstance.isOver {property : List Variable → Atom → Prop}
    {base signature : Signature} {free : List Variable}
    (isScoped : ∀ binders a, property binders a → a.IsScoped base free binders)
    (grows : base.GrowsTo signature) {b : Atom}
    (isInstance : b.IsSkolemInstance property base signature free) : b.IsOver signature := by
  obtain ⟨binders, a, τ, good, rfl, images⟩ := isInstance
  have scope := isScoped binders a good
  have isOver := scope.isOver.mono grows
  refine ⟨isOver.bound, by simpa [Atom.apply] using isOver.arity, fun t mem => ?_⟩
  obtain ⟨s, sMem, rfl⟩ := List.mem_map.mp mem
  rw [Substitution.apply_eq_replace]
  exact (isOver.isOver s sMem).replace
    (fun v vMem => (images v (scope.inScope s sMem v vMem)).isOver) (.refl _)

/-- What is known of a Skolemized formula. -/
structure Skolemized (property : List Variable → Atom → Prop) (base : Signature)
    (free : List Variable) (σ : Substitution) (formula : Formula Variable Atom)
    (before : Signature) (result : Formula Variable Atom) (after : Signature) : Prop where
  gains : before.GainsSymbols (fun name => ¬IsPlain name) after
  isNormal : result.IsNegationNormal
  isQuantifierFree : result.isQuantifierFree = true
  atoms : result.EveryAtom (fun _ b => b.IsSkolemInstance property base after free) []
  model : ∀ ⦃D : Type u⦄ (M : Model D), ∃ M' : Model D, M'.AgreesOn before M ∧
    ∀ ρ, formulaHolds M (σ.valuation M ρ) formula → formulaHolds M' ρ result

/-- A truth constant or a literal has no quantifier to remove. -/
theorem skolemized_literal (isNormal : result.IsNegationNormal)
    (isQuantifierFree : result.isQuantifierFree = true)
    (atoms : result.EveryAtom (fun _ b => b.IsSkolemInstance property base before free) [])
    (holds : ∀ ⦃D : Type u⦄ (M : Model D) ρ, formulaHolds M (σ.valuation M ρ) formula → formulaHolds
      M ρ result) : Skolemized.{u} property base free σ formula before result before :=
  ⟨.refl _, isNormal, isQuantifierFree, atoms, fun _ M => ⟨M, .refl _ _, holds M⟩⟩

/-- The two sides of a conjunction or a disjunction, one after the other. -/
theorem Skolemized.binary {middle : Signature} {universals : List Variable}
    (isScoped : ∀ binders a, property binders a → a.IsScoped base free binders)
    (grows : base.GrowsTo before)
    (skolemizes : σ.Skolemizes base before free universals fun w => w ∈ binders ∨ w ∈ free)
    {left right newLeft newRight : Formula Variable Atom} {connective : Connective}
    (isJunction : connective = .and ∨ connective = .or)
    (rightAtoms : right.EveryAtom property binders)
    (first : Skolemized.{u} property base free σ left before newLeft middle)
    (second : Skolemized.{u} property base free σ right middle newRight after) :
    Skolemized.{u} property base free σ (.binary connective left right) before
      (.binary connective newLeft newRight) after := by
  have later := second.gains.grows
  have leftAtoms := first.atoms.imp fun _ b isInstance => isInstance.mono later
  constructor
  · exact first.gains.trans second.gains
  · rcases isJunction with rfl | rfl
    · exact ⟨first.isNormal, second.isNormal⟩
    · exact ⟨first.isNormal, second.isNormal⟩
  · simp [Formula.isQuantifierFree, first.isQuantifierFree, second.isQuantifierFree]
  · exact ⟨leftAtoms, second.atoms⟩
  · intro D M
    obtain ⟨M₁, agree₁, left₁⟩ := first.model M
    obtain ⟨M₂, agree₂, right₂⟩ := second.model M₁
    refine ⟨M₂, (agree₂.of_growsTo first.gains.grows).trans agree₁, fun ρ => ?_⟩
    have leftHolds (holds : formulaHolds M (σ.valuation M ρ) left) : formulaHolds M₂ ρ newLeft := by
      have overMiddle := first.atoms.imp fun _ b isInstance =>
        isInstance.isOver isScoped (grows.trans first.gains.grows)
      exact (formulaHolds_iff_of_agreesOn overMiddle agree₂ ρ).mpr (left₁ ρ holds)
    have rightHolds (holds : formulaHolds M (σ.valuation M ρ) right) :
        formulaHolds M₂ ρ newRight := by
      refine right₂ ρ ?_
      refine (formulaHolds_iff_of_scoped isScoped rightAtoms (agree₁.of_growsTo grows)
        fun w scope => ?_).mpr holds
      exact (skolemizes.valuation_eq agree₁ (fun _ _ => rfl) scope).symm
    rcases isJunction with rfl | rfl
    · exact And.imp leftHolds rightHolds
    · exact Or.imp leftHolds rightHolds

/-- Interpret a function symbol by choosing, for values of the universal
variables, a value for which a body is true. -/
noncomputable def Structure.choosing (M : Model D) (f : FunctionSymbol)
    (universals : List Variable) (body : (Variable → D) → D → Prop) : Model D where
  function g arguments :=
    open Classical in
    if g = f then
      if exists_ : ∃ d ρ, universals.map ρ = arguments ∧ body ρ d then exists_.choose
      else M.function g arguments
    else M.function g arguments
  predicate := M.predicate

theorem Structure.choosing_spec {M : Model D} {f : FunctionSymbol} {universals : List Variable}
    {body : (Variable → D) → D → Prop} {ρ : Variable → D} {d : D} (holds : body ρ d) :
    ∃ ρ', universals.map ρ' = universals.map ρ ∧
      body ρ' ((M.choosing f universals body).function f (universals.map ρ)) := by
  have exists_ : ∃ d ρ', universals.map ρ' = universals.map ρ ∧ body ρ' d := ⟨d, ρ, rfl, holds⟩
  simp only [Structure.choosing, if_true, dif_pos exists_]
  exact exists_.choose_spec

theorem Structure.choosing_agreesOn (M : Model D) {f : FunctionSymbol}
    (isNew : signature.functions.size ≤ f.index) (universals : List Variable)
    (body : (Variable → D) → D → Prop) :
    (M.choosing f universals body).AgreesOn signature M where
  function g bound := by
    have different : g ≠ f := by
      rintro rfl
      exact Nat.not_lt.mpr isNew bound
    funext arguments
    simp [Structure.choosing, different]
  predicate _ _ := rfl

theorem mem_scope_cons {w : Variable} (scope : w ∈ v :: binders ∨ w ∈ free) :
    w = v ∨ w ∈ binders ∨ w ∈ free := by
  rcases scope with mem | mem
  · exact (List.mem_cons.mp mem).imp_right .inl
  · exact .inr (.inr mem)

/-- Removing a universal quantifier, whose variable becomes a new variable. -/
theorem Skolemized.universal {property : List Variable → Atom → Prop}
    {base before after : Signature} {free : List Variable} {σ : Substitution} {v fresh : Variable}
    {body result : Formula Variable Atom} {extended : Signature}
    (gains : before.GainsSymbols (fun name => ¬IsPlain name) extended)
    (inner : Skolemized.{u} property base free (σ.insert v (.var fresh)) body extended result
      after) :
    Skolemized.{u} property base free σ (.quantified .universal v body) before result after := by
  refine ⟨gains.trans inner.gains, inner.isNormal, inner.isQuantifierFree, inner.atoms,
    fun D M => ?_⟩
  obtain ⟨M', agree, holds⟩ := inner.model M
  refine ⟨M', agree.of_growsTo gains.grows, fun ρ all => holds ρ ?_⟩
  rw [Substitution.valuation_insert]
  exact all (ρ fresh)

/-- Removing an existential quantifier, whose variable becomes a new function of
the universal variables. -/
theorem Skolemized.existential {universals : List Variable} {f : FunctionSymbol}
    {body : Formula Variable Atom}
    (isScoped : ∀ binders a, property binders a → a.IsScoped base free binders)
    (grows : base.GrowsTo before)
    (skolemizes : σ.Skolemizes base before free universals fun w => w ∈ binders ∨ w ∈ free)
    (atoms : body.EveryAtom property (v :: binders))
    (gains : before.GainsSymbols (fun name => ¬IsPlain name) extended)
    (isNew : before.functions.size ≤ f.index)
    (inner : Skolemized.{u} property base free (σ.insert v (.app f (universals.map .var))) body
      extended result after) :
    Skolemized.{u} property base free σ (.quantified .existential v body) before result
      after := by
  refine ⟨gains.trans inner.gains, inner.isNormal, inner.isQuantifierFree, inner.atoms,
    fun D M => ?_⟩
  -- The body at the values that `ρ` gives to what is in scope, and at `d` for the variable.
  let bodyAt (ρ : Variable → D) (d : D) : Prop :=
    formulaHolds M (Function.update (σ.valuation M ρ) v d) body
  let M₁ := M.choosing f universals bodyAt
  have agree₁ : M₁.AgreesOn before M := M.choosing_agreesOn isNew universals bodyAt
  obtain ⟨M', agree, holds⟩ := inner.model M₁
  refine ⟨M', (agree.of_growsTo gains.grows).trans agree₁, fun ρ some_ => holds ρ ?_⟩
  obtain ⟨d, atD⟩ := some_
  obtain ⟨ρ', sameValues, chosen⟩ :=
    @Structure.choosing_spec D M f universals bodyAt ρ d atD
  have same : ∀ x ∈ universals, ρ' x = ρ x := List.map_inj_left.mp sameValues
  refine (formulaHolds_iff_of_scoped isScoped atoms (agree₁.of_growsTo grows)
    fun w scope => ?_).mpr chosen
  rw [Substitution.valuation_insert]
  by_cases isIt : w = v
  · rw [isIt, Function.update_self, Function.update_self, Term.value_app, List.map_map]
    rfl
  · rw [Function.update_of_ne isIt, Function.update_of_ne isIt]
    exact (skolemizes.valuation_eq agree₁ same ((mem_scope_cons scope).resolve_left isIt)).symm

/-- Where a Skolemization stands: which variables are universal, below which
binders, and what has been put in for the variables in scope. -/
structure Skolemization.Context (base : Signature) (free binders universals : List Variable)
    (σ : Substitution) (signature : Signature) : Prop where
  grows : base.GrowsTo signature
  freeFirst : free <+: universals
  isOver : ∀ x ∈ universals, x.index < signature.vars.size
  skolemizes : σ.Skolemizes base signature free universals fun w => w ∈ binders ∨ w ∈ free

namespace Skolemization.Context

variable {base signature : Signature} {free binders universals : List Variable} {σ : Substitution}

/-- At the start the universal variables are the free ones, which stand for themselves. -/
theorem start (freeOver : ∀ v ∈ free, v.index < signature.vars.size) :
    Context signature free [] free .empty signature := by
  refine ⟨.refl _, List.prefix_rfl, freeOver, ?_, ?_⟩
  · intro w scope
    exact ⟨.var (freeOver w (by simpa using scope)), .inl ⟨w, rfl⟩⟩
  · intro w scope x mem
    rw [Substitution.image_empty, Term.vars_var, List.mem_singleton] at mem
    rw [mem]
    simpa using scope

theorem mono (context : Context base free binders universals σ signature)
    (later : signature.GrowsTo extended) : Context base free binders universals σ extended :=
  ⟨context.grows.trans later, context.freeFirst,
    fun x mem => Nat.lt_of_lt_of_le (context.isOver x mem) later.varsSize,
    context.skolemizes.mono later⟩

/-- Below a universal quantifier there is one more universal variable. -/
theorem universal (context : Context base free binders universals σ signature) (v : Variable)
    (name : String) :
    Context base free (v :: binders) (universals ++ [⟨signature.vars.size⟩])
      (σ.insert v (.var ⟨signature.vars.size⟩)) (signature.addVariable name).2 := by
  have gains : signature.GainsSymbols (fun name => ¬IsPlain name) _ :=
    Signature.gainsSymbols_addVariable name signature
  have later := gains.grows
  have freshOver : signature.vars.size < (signature.addVariable name).2.vars.size := by
    simp [Signature.addVariable]
  have inserted := context.skolemizes.insert (v := v) later
    (fun x mem => List.mem_append_left [⟨signature.vars.size⟩] mem)
    ⟨.var freshOver, .inl ⟨_, rfl⟩⟩ (by simp)
  refine ⟨context.grows.trans later, context.freeFirst.trans (List.prefix_append ..),
    fun x mem => ?_, fun w scope => inserted.image w (mem_scope_cons scope),
    fun w scope => inserted.vars w (mem_scope_cons scope)⟩
  rcases List.mem_append.mp mem with old | isNew
  · exact Nat.lt_of_lt_of_le (context.isOver x old) later.varsSize
  · rw [List.mem_singleton.mp isNew]
    exact freshOver

/-- Below an existential quantifier its variable stands for a new function of the
universal variables. -/
theorem existential (context : Context base free binders universals σ signature) (v : Variable) :
    Context base free (v :: binders) universals
      (σ.insert v (.app (signature.addSkolem universals.length).1 (universals.map .var)))
      (signature.addSkolem universals.length).2 := by
  obtain ⟨gains, isNew, size, arity⟩ := signature.addSkolem_spec universals.length
  have later := gains.grows
  have functionOver : (Term.app (signature.addSkolem universals.length).1
      (universals.map .var)).IsOver (signature.addSkolem universals.length).2 := by
    refine .app (by rw [isNew, size]; exact Nat.lt_succ_self _) (by simp [arity]) ?_
    intro t mem
    obtain ⟨x, xMem, rfl⟩ := List.mem_map.mp mem
    exact .var (Nat.lt_of_lt_of_le (context.isOver x xMem) later.varsSize)
  have newer : base.functions.size ≤ (signature.addSkolem universals.length).1.index := by
    rw [isNew]
    exact context.grows.functionsSize
  have inserted := context.skolemizes.insert (v := v) later (fun x mem => mem)
    ⟨functionOver, .inr ⟨_, universals, newer, context.freeFirst, rfl⟩⟩ (by simp)
  exact ⟨context.grows.trans later, context.freeFirst,
    fun x mem => Nat.lt_of_lt_of_le (context.isOver x mem) later.varsSize,
    fun w scope => inserted.image w (mem_scope_cons scope),
    fun w scope => inserted.vars w (mem_scope_cons scope)⟩

end Skolemization.Context

end Entailment.FirstOrder
