import Entailment.FirstOrder.Clausify
import Entailment.Proofs.FirstOrder.SkolemReflection

/-!
# Clauses of a formula

The clauses of a formula are those of its Skolemized negation normal form, renamed
onto the canonical variables.  Clausification always succeeds.  A model of the
formula, or of its negation where that is asked for, becomes a model of the
clauses by interpreting the new Skolem functions.
-/

namespace Entailment.FirstOrder

universe u

/-- What is known of the clauses that a formula in negation normal form gives:
each of them is a variant of one of the disjunctions of the Skolemized formula. -/
structure Clausifies (property : List Variable → Atom → Prop) (free : List Variable)
    (normal : Formula Variable Atom) (signature : Signature)
    (disjunctions : ClauseSet Atom) (clauses : List Clause) (after : Signature) : Prop where
  gains : signature.GainsSymbols (fun name => ¬IsPlain name) after
  distributed : ∃ result state, skolemize free normal signature = (.ok result, state) ∧
    result.distribute = .ok disjunctions
  atoms : ∀ disjunction ∈ disjunctions, ∀ literal ∈ disjunction,
    literal.atom.IsSkolemInstance property signature after free
  isOver : ∀ c ∈ clauses, c.IsOver after
  variant : ∀ c ∈ clauses, ∃ disjunction ∈ disjunctions, c.IsVariantOf (Clause.ofList disjunction)
  model : ∀ ⦃D : Type u⦄ (M : Model D), (∀ ρ, formulaHolds M ρ normal) →
    ∃ M' : Model D, M'.AgreesOn signature M ∧ ∀ c ∈ clauses, M'.Satisfies c

/-- The disjunctions of a Skolemized formula are clauses over its signature. -/
theorem Skolemized.isOver_disjunctions {property : List Variable → Atom → Prop}
    {signature after : Signature} {free : List Variable}
    (isScoped : ∀ binders a, property binders a → a.IsScoped signature free binders)
    {σ : Substitution} {formula result : Formula Variable Atom} {disjunctions : ClauseSet Atom}
    (skolemized : Skolemized.{u} property signature free σ formula signature result after)
    (form : Formula.IsClausalFormOf.{u} result disjunctions) :
    ∀ c ∈ disjunctions.withoutTautologies.map Clause.ofList, c.IsOver after := by
  intro c mem
  obtain ⟨disjunction, disjunctionMem, rfl⟩ := List.mem_map.mp mem
  refine Clause.isOver_ofList.mpr fun literal literalMem => ?_
  exact (form.atoms skolemized.atoms disjunction (List.mem_of_mem_filter disjunctionMem) literal
    literalMem).isOver isScoped skolemized.gains.grows

/-- A formula in negation normal form has clauses. -/
theorem clausesOfNormal_spec {property : List Variable → Atom → Prop} {signature : Signature}
    {free : List Variable}
    (isScoped : ∀ binders a, property binders a → a.IsScoped signature free binders)
    (has : signature.HasCanonical) (freeOver : ∀ v ∈ free, v.index < signature.vars.size)
    {normal : Formula Variable Atom} (isNormal : normal.IsNegationNormal)
    (atoms : normal.EveryAtom property []) :
    ∃ disjunctions clauses, (clausesOfNormal free normal signature).clauses = .ok clauses ∧
      Clausifies.{u} property free normal signature disjunctions clauses
        (clausesOfNormal free normal signature).signature := by
  obtain ⟨result, state, done, skolemized, -⟩ :=
    skolemize_spec.{u} isScoped freeOver isNormal atoms
  obtain ⟨disjunctions, distributed, form⟩ :=
    Formula.distribute_spec.{u} skolemized.isNormal skolemized.isQuantifierFree
  have literals := form.atoms skolemized.atoms
  obtain ⟨renamed, variants⟩ := Clause.canonicalAll_spec
    (skolemized.isOver_disjunctions isScoped form) (skolemized.gains.canonical has)
  refine ⟨disjunctions, (Clause.canonicalAll (disjunctions.withoutTautologies.map Clause.ofList)
    state.signature).1, ?_, ?_⟩
  · simp only [clausesOfNormal, done, distributed]
  · have after : (clausesOfNormal free normal signature).signature =
        (Clause.canonicalAll (disjunctions.withoutTautologies.map Clause.ofList)
          state.signature).2 := by
      simp only [clausesOfNormal, done, distributed]
    have origin (c : Clause) (mem : c ∈ (Clause.canonicalAll
        (disjunctions.withoutTautologies.map Clause.ofList) state.signature).1) :
        ∃ disjunction ∈ disjunctions, c.IsVariantOf (Clause.ofList disjunction) := by
      obtain ⟨original, originalMem, variant⟩ := (variants c mem).2
      obtain ⟨disjunction, disjunctionMem, rfl⟩ := List.mem_map.mp originalMem
      exact ⟨disjunction, List.mem_of_mem_filter disjunctionMem, variant⟩
    rw [after]
    refine ⟨skolemized.gains.trans renamed.gainsSymbols, ⟨result, state, done, distributed⟩, ?_,
      fun c mem => (variants c mem).1, origin, fun D M holds => ?_⟩
    · intro disjunction disjunctionMem literal literalMem
      exact (literals disjunction disjunctionMem literal literalMem).mono renamed.grows
    · obtain ⟨M', agree, resultHolds⟩ := skolemized.model M
      refine ⟨M', agree, fun c mem => ?_⟩
      obtain ⟨disjunction, disjunctionMem, variant⟩ := origin c mem
      refine Structure.Satisfies.of_isVariantOf (fun ρ => ?_) variant
      have everywhere : formulaHolds M' ρ result := resultHolds ρ (holds _)
      have all := (form.holds_iff (fun ρ a => Atom.Holds M' ρ a) ρ).mpr everywhere
      obtain ⟨literal, literalMem, literalHolds⟩ := all disjunction disjunctionMem
      exact ⟨literal, Sorted.mem_ofList.mpr literalMem, literalHolds⟩

/-- Every formula has clauses, and so does its negation. -/
theorem clausesOf_spec {property : List Variable → Atom → Prop} {signature : Signature}
    {free : List Variable}
    (isScoped : ∀ binders a, property binders a → a.IsScoped signature free binders)
    (has : signature.HasCanonical) (freeOver : ∀ v ∈ free, v.index < signature.vars.size)
    (invert : Bool) {formula : Formula Variable Atom} (atoms : formula.EveryAtom property []) :
    ∃ normal disjunctions clauses, formula.negationNormal invert = .ok normal ∧
      (∀ ⦃D : Type u⦄ (M : Model D) ρ,
        formulaHolds M ρ normal ↔ inverted invert (formulaHolds M ρ formula)) ∧
      (clausesOf invert free formula signature).clauses = .ok clauses ∧
      Clausifies.{u} property free normal signature disjunctions clauses
        (clausesOf invert free formula signature).signature := by
  obtain ⟨normal, done, form⟩ := Formula.negationNormal_spec.{u} invert formula
  obtain ⟨disjunctions, clauses, made, clausifies⟩ :=
    clausesOfNormal_spec.{u} isScoped has freeOver form.isNormal (form.everyAtom atoms)
  refine ⟨normal, disjunctions, clauses, done, fun D M ρ => form.holds_iff _ ρ, ?_, ?_⟩
  · simp only [clausesOf, done, made]
  · simp only [clausesOf, done]
    exact clausifies

end Entailment.FirstOrder
