import Entailment.FirstOrder.Resolvent
import Entailment.Proofs.FirstOrder.RenamingLaws
import Entailment.Proofs.FirstOrder.Unifier
import Entailment.Proofs.Formula.ClausalTruth

/-!
# First-order structures

A structure interprets function and predicate symbols over a domain.  Symbols
are interpreted on argument lists of every length, so that one number of
arguments says nothing about another.  `Model` is a structure for the symbols
of a signature, and `=` is a predicate symbol like any other.

A model satisfies a clause when the clause is true under every valuation of its
variables.  Instances of a satisfied clause are satisfied, and so are the
resolvents of two satisfied clauses over a signature.
-/

namespace Entailment.FirstOrder

universe u

/-- An interpretation of function symbols from `φ` and predicate symbols from
`π` over a domain. -/
structure Structure (φ π : Type) (D : Type u) where
  function : φ → List D → D
  predicate : π → List D → Prop

/-- A structure for the symbols of a signature. -/
abbrev Model (D : Type u) := Structure FunctionSymbol PredicateSymbol D

variable {D : Type u}

namespace Term

mutual

/-- The value of a term under a valuation of its variables. -/
def value (M : Model D) (ρ : Variable → D) : Term → D
  | var v => ρ v
  | app f args => M.function f (values M ρ args)

/-- The values of some terms. -/
def values (M : Model D) (ρ : Variable → D) : List Term → List D
  | [] => []
  | t :: ts => value M ρ t :: values M ρ ts

end

@[simp]
theorem value_var (M : Model D) (ρ : Variable → D) (v : Variable) : (var v).value M ρ = ρ v := rfl

@[simp]
theorem values_eq (M : Model D) (ρ : Variable → D) (args : List Term) :
    values M ρ args = args.map (value M ρ) := by
  induction args with
  | nil => rfl
  | cons t ts ih => simp [values, ih]

@[simp]
theorem value_app (M : Model D) (ρ : Variable → D) (f : FunctionSymbol) (args : List Term) :
    (app f args).value M ρ = M.function f (args.map (value M ρ)) :=
  congrArg (M.function f) (values_eq M ρ args)

/-- The value after a replacement is the value under the values of what was put
in. -/
theorem value_replace (M : Model D) (ρ : Variable → D) (image : Variable → Term) (t : Term) :
    (t.replace image).value M ρ = t.value M fun v => (image v).value M ρ := by
  induction t with
  | var v => rfl
  | app f args ih =>
      simp only [replace_app, value_app, List.map_map]
      exact congrArg (M.function f) (List.map_congr_left ih)

/-- A term depends only on the values of its variables. -/
theorem value_congr (M : Model D) {ρ ρ' : Variable → D} (t : Term)
    (same : ∀ v ∈ t.vars, ρ v = ρ' v) : t.value M ρ = t.value M ρ' := by
  induction t with
  | var v => exact same v (by simp)
  | app f args ih =>
      rw [value_app, value_app]
      refine congrArg _ (List.map_congr_left fun t mem => ih t mem fun v vMem => same v ?_)
      simpa using ⟨t, mem, vMem⟩

end Term

/-- The valuation that gives every variable the value of its image. -/
def Substitution.valuation (σ : Substitution) (M : Model D) (ρ : Variable → D) : Variable → D :=
  fun v => (σ.image v).value M ρ

theorem Substitution.valuation_insert (σ : Substitution) (M : Model D) (ρ : Variable → D)
    (v : Variable) (t : Term) :
    (σ.insert v t).valuation M ρ = Function.update (σ.valuation M ρ) v (t.value M ρ) := by
  funext w
  by_cases isIt : w = v
  · subst isIt
    rw [Function.update_self, valuation, image_insert_self]
  · rw [Function.update_of_ne isIt, valuation, image_insert_of_ne (Ne.symm isIt)]
    rfl

theorem Substitution.value_apply (σ : Substitution) (M : Model D) (ρ : Variable → D) (t : Term) :
    (σ.apply t).value M ρ = t.value M (σ.valuation M ρ) := by
  rw [apply_eq_replace, Term.value_replace]
  rfl

/-- The truth of an atom. -/
def Atom.Holds (M : Model D) (ρ : Variable → D) (a : Atom) : Prop :=
  M.predicate a.predicate (a.args.map (Term.value M ρ))

theorem Atom.holds_apply (M : Model D) (ρ : Variable → D) (σ : Substitution) (a : Atom) :
    (a.apply σ).Holds M ρ ↔ a.Holds M (σ.valuation M ρ) := by
  simp only [Atom.Holds, Atom.apply, List.map_map, Function.comp_def, Substitution.value_apply]

/-- The truth of a formula over a signature. -/
abbrev formulaHolds (M : Model D) (ρ : Variable → D) (formula : Formula Variable Atom) : Prop :=
  formula.Holds (fun ρ a => a.Holds M ρ) ρ

/-- The truth of a clause under a valuation of its variables. -/
def Clause.Holds (M : Model D) (ρ : Variable → D) (c : Clause) : Prop :=
  Disjunction.Holds (fun a => a.Holds M ρ) c.literals

/-- A clause is satisfied when it is true under every valuation. -/
def Structure.Satisfies (M : Model D) (c : Clause) : Prop :=
  ∀ ρ, c.Holds M ρ

/-- The truth of an instance is the truth of the clause under the values of what
was put in. -/
theorem Clause.holds_apply (M : Model D) (ρ : Variable → D) (σ : Substitution) (c : Clause) :
    (c.apply σ).Holds M ρ ↔ c.Holds M (σ.valuation M ρ) := by
  have literal_iff (literal : Literal Atom) :
      (literal.map (Atom.apply σ)).Holds (fun a => a.Holds M ρ) ↔
        literal.Holds fun a => a.Holds M (σ.valuation M ρ) := by
    obtain ⟨a, sign⟩ := literal
    cases sign with
    | positive => exact Atom.holds_apply M ρ σ a
    | negative => exact not_congr (Atom.holds_apply M ρ σ a)
  constructor
  · rintro ⟨literal, mem, holds⟩
    obtain ⟨original, originalMem, rfl⟩ := mem_literals_apply.mp mem
    exact ⟨original, originalMem, (literal_iff original).mp holds⟩
  · rintro ⟨original, originalMem, holds⟩
    exact ⟨_, mem_literals_apply.mpr ⟨original, originalMem, rfl⟩, (literal_iff original).mpr holds⟩

/-- Instances of a satisfied clause are satisfied. -/
theorem Structure.Satisfies.apply {M : Model D} {c : Clause} (satisfied : M.Satisfies c)
    (σ : Substitution) : M.Satisfies (c.apply σ) :=
  fun ρ => (Clause.holds_apply M ρ σ c).mpr (satisfied _)

theorem Structure.Satisfies.of_isVariantOf {M : Model D} {c d : Clause}
    (satisfied : M.Satisfies c) (variant : d.IsVariantOf c) : M.Satisfies d := by
  obtain ⟨σ, -, rfl⟩ := variant
  exact satisfied.apply σ

/-- No structure satisfies the empty clause: its domain has the values of the
constants. -/
theorem Structure.not_satisfies_empty (M : Model D) : ¬M.Satisfies .empty := by
  intro satisfied
  obtain ⟨literal, mem, -⟩ := satisfied fun _ => M.function ⟨0⟩ []
  cases mem

/-! ## Models that agree on a signature -/

/-- Two models interpret the symbols of a signature in the same way. -/
structure Structure.AgreesOn (signature : Signature) (M N : Model D) : Prop where
  function : ∀ f : FunctionSymbol, f.index < signature.functions.size →
    M.function f = N.function f
  predicate : ∀ p : PredicateSymbol, p.index < signature.predicates.size →
    M.predicate p = N.predicate p

variable {signature : Signature} {M N : Model D}

theorem Structure.AgreesOn.refl (signature : Signature) (M : Model D) : M.AgreesOn signature M :=
  ⟨fun _ _ => rfl, fun _ _ => rfl⟩

theorem Structure.AgreesOn.symm (agree : M.AgreesOn signature N) : N.AgreesOn signature M :=
  ⟨fun f bound => (agree.function f bound).symm, fun p bound => (agree.predicate p bound).symm⟩

theorem Structure.AgreesOn.trans {K : Model D} (first : M.AgreesOn signature N)
    (second : N.AgreesOn signature K) : M.AgreesOn signature K :=
  ⟨fun f bound => (first.function f bound).trans (second.function f bound),
    fun p bound => (first.predicate p bound).trans (second.predicate p bound)⟩

/-- Models that agree on a signature agree on what it has grown from. -/
theorem Structure.AgreesOn.of_growsTo {extended : Signature} (agree : M.AgreesOn extended N)
    (grows : signature.GrowsTo extended) : M.AgreesOn signature N :=
  ⟨fun f bound => agree.function f (Nat.lt_of_lt_of_le bound grows.functionsSize),
    fun p bound => agree.predicate p (Nat.lt_of_lt_of_le bound grows.predicatesSize)⟩

/-- A term over a signature has the same value in models that agree on it. -/
theorem Term.IsOver.value_eq {t : Term} (isOver : t.IsOver signature)
    (agree : M.AgreesOn signature N) {ρ ρ' : Variable → D} (same : ∀ v ∈ t.vars, ρ v = ρ' v) :
    t.value M ρ = t.value N ρ' := by
  induction isOver with
  | var bound => exact same _ (by simp)
  | app bound arity _ ih =>
      rw [value_app, value_app, agree.function _ bound]
      refine congrArg _ (List.map_congr_left fun t mem => ih t mem fun v vMem => same v ?_)
      simpa using ⟨t, mem, vMem⟩

theorem Atom.IsOver.holds_iff {a : Atom} (isOver : a.IsOver signature)
    (agree : M.AgreesOn signature N) {ρ ρ' : Variable → D}
    (same : ∀ t ∈ a.args, ∀ v ∈ t.vars, ρ v = ρ' v) : a.Holds M ρ ↔ a.Holds N ρ' := by
  have args : a.args.map (Term.value M ρ) = a.args.map (Term.value N ρ') :=
    List.map_congr_left fun t mem => (isOver.isOver t mem).value_eq agree (same t mem)
  rw [Atom.Holds, Atom.Holds, args, agree.predicate _ isOver.bound]

/-- A clause over a signature is satisfied by both or by neither of two models
that agree on it. -/
theorem Clause.IsOver.satisfies_iff {c : Clause} (isOver : c.IsOver signature)
    (agree : M.AgreesOn signature N) : M.Satisfies c ↔ N.Satisfies c := by
  refine forall_congr' fun ρ => exists_congr fun literal => and_congr_right fun mem => ?_
  have atom_iff : literal.atom.Holds M ρ ↔ literal.atom.Holds N ρ :=
    (isOver literal mem).holds_iff agree fun _ _ _ _ => rfl
  obtain ⟨a, sign⟩ := literal
  cases sign with
  | positive => exact atom_iff
  | negative => exact not_congr atom_iff

/-- The same for formulas. -/
theorem formulaHolds_iff_of_agreesOn {formula : Formula Variable Atom} {bound : List Variable}
    (isOver : formula.EveryAtom (fun _ a => a.IsOver signature) bound)
    (agree : M.AgreesOn signature N) (ρ : Variable → D) :
    formulaHolds M ρ formula ↔ formulaHolds N ρ formula :=
  Formula.holds_congr (fun _ ρ ρ' => ρ = ρ')
    (fun _ a ρ ρ' aOver same => by
      subst same
      exact aOver.holds_iff agree fun _ _ _ _ => rfl)
    (fun _ ρ ρ' binder d same => by rw [same]) isOver rfl

end Entailment.FirstOrder
