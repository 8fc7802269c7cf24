import Entailment.Proofs.FirstOrder.SkolemMeaning

/-!
# Skolemization reflects truth

A formula in negation normal form is true in every model in which its Skolemized
form is true for all values of its variables.  The variables of the Skolemized
form are the universal variables in scope and the variables created for the
quantifiers inside.  The two sides of a disjunction have no created variable in
common, so values that make one side false can be combined with any values for
the other side.

The functions created on the way are the witnesses that are recorded, and no
predicate is created.
-/

namespace Entailment.FirstOrder

universe u

variable {D : Type u}

/-- The variables of an atom have a property. -/
def Atom.UsesOnly (allowed : Variable → Prop) (a : Atom) : Prop :=
  ∀ t ∈ a.args, ∀ x ∈ t.vars, allowed x

/-- A formula depends only on the values of the variables it uses. -/
theorem formulaHolds_iff_of_usesOnly {M : Model D} {allowed : Variable → Prop}
    {formula : Formula Variable Atom} {binders : List Variable}
    (atoms : formula.EveryAtom (fun _ a => a.UsesOnly allowed) binders) {ρ ρ' : Variable → D}
    (same : ∀ x, allowed x → ρ x = ρ' x) :
    formulaHolds M ρ formula ↔ formulaHolds M ρ' formula := by
  refine Formula.holds_congr (fun _ ρ ρ' => ∀ x, allowed x → ρ x = ρ' x) ?_ ?_ atoms same
  · intro binders a ρ ρ' usesOnly same
    have values : a.args.map (Term.value M ρ) = a.args.map (Term.value M ρ') :=
      List.map_congr_left fun t tMem => t.value_congr M fun x xMem =>
        same x (usesOnly t tMem x xMem)
    rw [Atom.Holds, Atom.Holds, values]
  · intro binders ρ ρ' binder d same x isAllowed
    by_cases isIt : x = binder
    · rw [isIt, Function.update_self, Function.update_self]
    · rw [Function.update_of_ne isIt, Function.update_of_ne isIt]
      exact same x isAllowed

/-- The variables of an instance by what Skolemization puts in are universal. -/
theorem Atom.IsScoped.usesOnly_apply {base signature : Signature}
    {free universals binders : List Variable} {σ : Substitution} {a : Atom}
    (isScoped : a.IsScoped base free binders)
    (skolemizes : σ.Skolemizes base signature free universals fun w => w ∈ binders ∨ w ∈ free) :
    (a.apply σ).UsesOnly (· ∈ universals) := by
  intro t tMem x xMem
  obtain ⟨s, sMem, rfl⟩ := List.mem_map.mp tMem
  rw [Substitution.apply_eq_replace] at xMem
  obtain ⟨w, wMem, xMem⟩ := Term.mem_vars_replace xMem
  exact skolemizes.vars w (isScoped.inScope s sMem w wMem) x xMem

namespace Skolemization

/-- What Skolemizing a formula created, and that the formula is true where its
Skolemized form is true for all values of what was created. -/
structure Reflects (universals : List Variable) (σ : Substitution)
    (formula : Formula Variable Atom) (before : Skolemization) (result : Formula Variable Atom)
    (after : Skolemization) : Prop where
  predicates : after.signature.predicates = before.signature.predicates
  created : ∀ f, f ∈ after.witnesses.map Prod.snd ↔ f ∈ before.witnesses.map Prod.snd ∨
    before.signature.functions.size ≤ f.index ∧ f.index < after.signature.functions.size
  usesOnly : result.EveryAtom (fun _ b => b.UsesOnly fun x => x ∈ universals ∨
    before.signature.vars.size ≤ x.index ∧ x.index < after.signature.vars.size) []
  holds : ∀ ⦃D : Type u⦄ (M : Model D) (ρ : Variable → D),
    (∀ ρ', (∀ x ∈ universals, ρ' x = ρ x) → formulaHolds M ρ' result) →
      formulaHolds M (σ.valuation M ρ) formula

variable {universals : List Variable} {σ : Substitution} {before middle after : Skolemization}

/-- A truth constant or a literal creates nothing. -/
theorem reflects_literal {formula result : Formula Variable Atom}
    (usesOnly : result.EveryAtom (fun _ b => b.UsesOnly (· ∈ universals)) [])
    (holds : ∀ ⦃D : Type u⦄ (M : Model D) ρ,
      formulaHolds M ρ result → formulaHolds M (σ.valuation M ρ) formula) :
    Reflects.{u} universals σ formula before result before where
  predicates := rfl
  created f := by
    constructor
    · exact .inl
    · rintro (old | ⟨isNew, bound⟩)
      · exact old
      · omega
  usesOnly := usesOnly.imp fun _ _ uses t tMem x xMem => .inl (uses t tMem x xMem)
  holds _ M ρ everywhere := holds M ρ (everywhere ρ fun _ _ => rfl)

/-- Values of the universal variables, values of the variables created before
`limit`, and values of the others. -/
def combine (universals : List Variable) (limit : Nat) (ρ first second : Variable → D)
    (x : Variable) : D :=
  if x ∈ universals then ρ x else if x.index < limit then first x else second x

/-- Values that agree on the universal variables are combined to values that
agree with the first on what was created before the limit and with the second on
what was created later. -/
theorem combine_spec {limit : Nat} {ρ first second : Variable → D}
    (firstAgrees : ∀ x ∈ universals, first x = ρ x)
    (secondAgrees : ∀ x ∈ universals, second x = ρ x) :
    (∀ x ∈ universals, combine universals limit ρ first second x = ρ x) ∧
      (∀ x, x ∈ universals ∨ x.index < limit →
        combine universals limit ρ first second x = first x) ∧
      ∀ x, x ∈ universals ∨ limit ≤ x.index →
        combine universals limit ρ first second x = second x := by
  refine ⟨fun x mem => if_pos mem, ?_, ?_⟩
  · intro x allowed
    by_cases mem : x ∈ universals
    · rw [combine, if_pos mem, firstAgrees x mem]
    · rw [combine, if_neg mem, if_pos (allowed.resolve_left mem)]
  · intro x allowed
    by_cases mem : x ∈ universals
    · rw [combine, if_pos mem, secondAgrees x mem]
    · rw [combine, if_neg mem, if_neg (Nat.not_lt.mpr (allowed.resolve_left mem))]

/-- The two sides of a conjunction or a disjunction, one after the other. -/
theorem Reflects.binary {left right newLeft newRight : Formula Variable Atom}
    {connective : Connective} (isJunction : connective = .and ∨ connective = .or)
    (firstGrows : before.signature.GrowsTo middle.signature)
    (secondGrows : middle.signature.GrowsTo after.signature)
    (first : Reflects.{u} universals σ left before newLeft middle)
    (second : Reflects.{u} universals σ right middle newRight after) :
    Reflects.{u} universals σ (.binary connective left right) before
      (.binary connective newLeft newRight) after := by
  have firstVars := firstGrows.varsSize
  have secondVars := secondGrows.varsSize
  have firstFunctions := firstGrows.functionsSize
  have secondFunctions := secondGrows.functionsSize
  constructor
  · exact second.predicates.trans first.predicates
  · intro f
    rw [second.created, first.created]
    constructor
    · rintro ((old | inFirst) | inSecond)
      · exact .inl old
      · exact .inr (by omega)
      · exact .inr (by omega)
    · rintro (old | isNew)
      · exact .inl (.inl old)
      · by_cases inFirst : f.index < middle.signature.functions.size
        · exact .inl (.inr ⟨isNew.1, inFirst⟩)
        · exact .inr ⟨Nat.le_of_not_lt inFirst, isNew.2⟩
  · constructor
    · refine first.usesOnly.imp fun _ b uses t tMem x xMem => ?_
      exact (uses t tMem x xMem).imp_right fun bounds => by omega
    · refine second.usesOnly.imp fun _ b uses t tMem x xMem => ?_
      exact (uses t tMem x xMem).imp_right fun bounds => by omega
  · intro D M ρ everywhere
    rcases isJunction with rfl | rfl
    · exact ⟨first.holds M ρ fun ρ' agrees => (everywhere ρ' agrees).1,
        second.holds M ρ fun ρ' agrees => (everywhere ρ' agrees).2⟩
    · -- If the left side is false for some values, the right side is true for all.
      by_cases leftHolds : ∀ ρ', (∀ x ∈ universals, ρ' x = ρ x) → formulaHolds M ρ' newLeft
      · exact .inl (first.holds M ρ leftHolds)
      · push Not at leftHolds
        obtain ⟨ρ₁, firstAgrees, leftFalse⟩ := leftHolds
        refine .inr (second.holds M ρ fun ρ₂ secondAgrees => ?_)
        obtain ⟨agrees, sameLeft, sameRight⟩ :=
          @combine_spec _ universals middle.signature.vars.size ρ ρ₁ ρ₂ firstAgrees secondAgrees
        rcases everywhere _ agrees with leftTrue | rightTrue
        · refine absurd ((formulaHolds_iff_of_usesOnly first.usesOnly fun x allowed => ?_).mp
            leftTrue) leftFalse
          exact sameLeft x (allowed.imp_right And.right)
        · refine (formulaHolds_iff_of_usesOnly second.usesOnly fun x allowed => ?_).mp rightTrue
          exact sameRight x (allowed.imp_right And.left)

/-- Removing a universal quantifier: the values of the new variable are those of
the variable that was bound. -/
theorem Reflects.universal {base : Signature} {free binders : List Variable}
    {property : List Variable → Atom → Prop}
    (isScoped : ∀ binders a, property binders a → a.IsScoped base free binders)
    (context : Context base free binders universals σ before.signature) {v : Variable}
    {name : String} {body result : Formula Variable Atom}
    (atoms : body.EveryAtom property (v :: binders))
    (grows : (before.signature.addVariable name).2.GrowsTo after.signature)
    (inner : Reflects.{u} (universals ++ [⟨before.signature.vars.size⟩])
      (σ.insert v (.var ⟨before.signature.vars.size⟩)) body
      { before with signature := (before.signature.addVariable name).2 } result after) :
    Reflects.{u} universals σ (.quantified .universal v body) before result after := by
  have freshBound : before.signature.vars.size < after.signature.vars.size := by
    have size := grows.varsSize
    simp only [Signature.addVariable, Array.size_push] at size
    omega
  have isNew : ⟨before.signature.vars.size⟩ ∉ universals := fun mem =>
    Nat.lt_irrefl _ (context.isOver _ mem)
  constructor
  · exact inner.predicates
  · exact inner.created
  · refine inner.usesOnly.imp fun _ b uses t tMem x xMem => ?_
    rcases uses t tMem x xMem with mem | bounds
    · rcases List.mem_append.mp mem with old | isFresh
      · exact .inl old
      · rw [List.mem_singleton.mp isFresh]
        exact .inr ⟨Nat.le_refl _, freshBound⟩
    · simp only [Signature.addVariable, Array.size_push] at bounds
      exact .inr (by omega)
  · intro D M ρ everywhere d
    have holds := inner.holds M (Function.update ρ ⟨before.signature.vars.size⟩ d) ?_
    · refine (formulaHolds_iff_of_scoped isScoped atoms (.refl base M) fun w scope => ?_).mp holds
      rw [Substitution.valuation_insert]
      by_cases isIt : w = v
      · rw [isIt, Function.update_self, Function.update_self, Term.value_var, Function.update_self]
      · rw [Function.update_of_ne isIt, Function.update_of_ne isIt]
        refine Term.value_congr M _ fun x mem => Function.update_of_ne ?_ _ _
        rintro rfl
        exact isNew (context.skolemizes.vars w ((mem_scope_cons scope).resolve_left isIt) _ mem)
    · intro ρ' agrees
      refine everywhere ρ' fun x mem => ?_
      rw [agrees x (List.mem_append_left _ mem), Function.update_of_ne]
      rintro rfl
      exact isNew mem

/-- Removing an existential quantifier: the new function gives a value for which
the body is true. -/
theorem Reflects.existential {v : Variable} {body result : Formula Variable Atom}
    (grows : (before.signature.addSkolem universals.length).2.GrowsTo after.signature)
    (inner : Reflects.{u} universals
      (σ.insert v (.app (before.signature.addSkolem universals.length).1
        (universals.map .var))) body
      ⟨(before.signature.addSkolem universals.length).2,
        (v, (before.signature.addSkolem universals.length).1) :: before.witnesses⟩ result after) :
    Reflects.{u} universals σ (.quantified .existential v body) before result after := by
  obtain ⟨-, isNext, size, -⟩ := before.signature.addSkolem_spec universals.length
  constructor
  · exact inner.predicates
  · intro f
    have bound := grows.functionsSize
    rw [inner.created, List.map_cons, List.mem_cons, isNext]
    simp only [size] at bound ⊢
    constructor
    · rintro ((rfl | old) | later)
      · exact .inr ⟨Nat.le_refl _, bound⟩
      · exact .inl old
      · exact .inr (by omega)
    · rintro (old | isNew)
      · exact .inl (.inr old)
      · by_cases isIt : f.index = before.signature.functions.size
        · exact .inl (.inl (congrArg FunctionSymbol.mk isIt))
        · exact .inr (by omega)
  · exact inner.usesOnly
  · intro D M ρ everywhere
    refine ⟨M.function (before.signature.addSkolem universals.length).1 (universals.map ρ), ?_⟩
    have holds := inner.holds M ρ everywhere
    rw [Substitution.valuation_insert, Term.value_app, List.map_map] at holds
    exact holds

/-- Skolemization of a formula in negation normal form succeeds, keeps models and
reflects truth. -/
theorem run_spec {property : List Variable → Atom → Prop} {base : Signature}
    {free : List Variable}
    (isScoped : ∀ binders a, property binders a → a.IsScoped base free binders)
    {formula : Formula Variable Atom} (isNormal : formula.IsNegationNormal)
    {binders : List Variable} {state : Skolemization} (atoms : formula.EveryAtom property binders)
    (context : Context base free binders universals σ state.signature) :
    ∃ result after, run universals σ formula state = (.ok result, after) ∧
      Skolemized.{u} property base free σ formula state.signature result after.signature ∧
      Reflects.{u} universals σ formula state result after := by
  induction formula generalizing binders universals σ state with
  | truth value =>
      exact ⟨_, _, rfl, skolemized_literal trivial rfl trivial fun _ _ _ => id,
        reflects_literal trivial fun _ _ _ => id⟩
  | atom a =>
      exact ⟨_, _, rfl,
        skolemized_literal trivial rfl ⟨binders, a, σ, atoms, rfl, context.skolemizes.image⟩
          fun D M ρ => (Atom.holds_apply M ρ σ a).mpr,
        reflects_literal ((isScoped _ _ atoms).usesOnly_apply context.skolemizes)
          fun _ M ρ => (Atom.holds_apply M ρ σ a).mp⟩
  | not body =>
      cases body with
      | atom a =>
          exact ⟨_, _, rfl,
            skolemized_literal trivial rfl ⟨binders, a, σ, atoms, rfl, context.skolemizes.image⟩
              fun D M ρ => (not_congr (Atom.holds_apply M ρ σ a)).mpr,
            reflects_literal ((isScoped _ _ atoms).usesOnly_apply context.skolemizes)
              fun _ M ρ => (not_congr (Atom.holds_apply M ρ σ a)).mp⟩
      | _ => exact isNormal.elim
  | binary connective left right leftIh rightIh =>
      have junction : (connective = .and ∨ connective = .or) ∧ left.IsNegationNormal ∧
          right.IsNegationNormal := by
        cases connective with
        | and => exact ⟨.inl rfl, isNormal⟩
        | or => exact ⟨.inr rfl, isNormal⟩
        | implies => exact isNormal.elim
        | equiv => exact isNormal.elim
      obtain ⟨isJunction, leftNormal, rightNormal⟩ := junction
      obtain ⟨newLeft, middle, leftDone, first, firstReflects⟩ :=
        leftIh leftNormal atoms.1 context
      obtain ⟨newRight, after, rightDone, second, secondReflects⟩ :=
        rightIh rightNormal atoms.2 (context.mono first.gains.grows)
      refine ⟨.binary connective newLeft newRight, after, ?_,
        first.binary isScoped context.grows context.skolemizes isJunction atoms.2 second,
        firstReflects.binary isJunction first.gains.grows second.gains.grows secondReflects⟩
      rcases isJunction with rfl | rfl
      · simp only [run, leftDone, rightDone]
      · simp only [run, leftDone, rightDone]
  | quantified quantifier v body ih =>
      cases quantifier with
      | universal =>
          obtain ⟨result, after, done, inner, reflects⟩ :=
            @ih _ _ isNormal (v :: binders)
              { state with
                signature := (state.signature.addVariable (state.signature.variableName v)).2 }
              atoms (context.universal v _)
          exact ⟨result, after, done,
            inner.universal (Signature.gainsSymbols_addVariable _ state.signature),
            reflects.universal isScoped context atoms inner.gains.grows⟩
      | existential =>
          obtain ⟨gains, isNew, -, -⟩ := state.signature.addSkolem_spec universals.length
          obtain ⟨result, after, done, inner, reflects⟩ :=
            @ih _ _ isNormal (v :: binders)
              ⟨(state.signature.addSkolem universals.length).2,
                (v, (state.signature.addSkolem universals.length).1) :: state.witnesses⟩
              atoms (context.existential v)
          exact ⟨result, after, done, inner.existential isScoped context.grows context.skolemizes
            atoms gains (Nat.le_of_eq (congrArg FunctionSymbol.index isNew).symm),
            reflects.existential inner.gains.grows⟩

end Skolemization

theorem skolemize_spec {property : List Variable → Atom → Prop} {signature : Signature}
    {free : List Variable}
    (isScoped : ∀ binders a, property binders a → a.IsScoped signature free binders)
    (freeOver : ∀ v ∈ free, v.index < signature.vars.size)
    {formula : Formula Variable Atom} (isNormal : formula.IsNegationNormal)
    (atoms : formula.EveryAtom property []) :
    ∃ result state, skolemize free formula signature = (.ok result, state) ∧
      Skolemized.{u} property signature free .empty formula signature result state.signature ∧
      Skolemization.Reflects.{u} free .empty formula ⟨signature, []⟩ result state :=
  Skolemization.run_spec isScoped isNormal atoms (.start freeOver)

end Entailment.FirstOrder
