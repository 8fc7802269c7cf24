import Entailment.FirstOrder.Clausify
import Entailment.Proofs.Formula.ClausalTruth
import Entailment.Proofs.FirstOrder.Naming
import Entailment.Proofs.FirstOrder.RenumberedClauses

/-!
# Renumbered formulas

A formula is turned into clauses alike over two signatures, when a renumbering takes
the symbols of the one to the symbols of the same names in the other, and what the one
creates next to what the other does.  The clauses of the two then differ in their
numbers only.
-/

namespace Entailment

open Sorted (Embeds)

variable {β δ α γ : Type}

/-! ## Normal forms -/

namespace Formula

/-- Replace the binders and the atoms of a formula. -/
def map (f : β → δ) (g : α → γ) : Formula β α → Formula δ γ
  | truth value => .truth value
  | atom a => .atom (g a)
  | not body => .not (body.map f g)
  | binary connective left right => .binary connective (left.map f g) (right.map f g)
  | quantified quantifier binder body => .quantified quantifier (f binder) (body.map f g)

variable (f : β → δ) (g : α → γ)

theorem removeEquivalence_map (formula : Formula β α) :
    (formula.map f g).removeEquivalence = formula.removeEquivalence.map f g := by
  induction formula with
  | truth | atom => rfl
  | not body ih => simp only [map, removeEquivalence, ih]
  | binary connective left right leftIh rightIh =>
      cases connective <;> simp only [map, removeEquivalence, leftIh, rightIh]
  | quantified quantifier binder body ih => simp only [map, removeEquivalence, ih]

theorem removeImplication_map (formula : Formula β α) :
    (formula.map f g).removeImplication = formula.removeImplication.map f g := by
  induction formula with
  | truth | atom => rfl
  | not body ih => simp only [map, removeImplication, ih]
  | binary connective left right leftIh rightIh =>
      cases connective <;> simp only [map, removeImplication, leftIh, rightIh]
  | quantified quantifier binder body ih => simp only [map, removeImplication, ih]

theorem pushNegation_map (invert : Bool) (formula : Formula β α) :
    (formula.map f g).pushNegation invert = (formula.pushNegation invert).map (map f g) := by
  induction formula generalizing invert with
  | truth => rfl
  | atom => cases invert <;> rfl
  | not body ih => exact ih (!invert)
  | binary connective left right leftIh rightIh =>
      cases connective with
      | and | or =>
          simp only [map, pushNegation, leftIh, rightIh]
          cases left.pushNegation invert <;> cases right.pushNegation invert <;> rfl
      | implies | equiv => rfl
  | quantified quantifier binder body ih =>
      simp only [map, pushNegation, ih]
      cases body.pushNegation invert <;> rfl

theorem negationNormal_map (invert : Bool) (formula : Formula β α) :
    (formula.map f g).negationNormal invert = (formula.negationNormal invert).map (map f g) := by
  rw [negationNormal, removeEquivalence_map, removeImplication_map, pushNegation_map,
    negationNormal]

end Formula

/-- The disjunctions over other atoms. -/
abbrev ClauseSet.mapAtoms (g : α → γ) : ClauseSet α → ClauseSet γ :=
  List.map (List.map (Literal.map g))

variable [Ord α] [Ord γ] {g : α → γ}

theorem ClauseSet.product_mapAtoms (embeds : Embeds g) (left right : ClauseSet α) :
    product (left.mapAtoms g) (right.mapAtoms g) = (product left right).mapAtoms g := by
  simp only [product, mapAtoms, ← embeds.literal.list.ofList, List.flatMap_map, List.map_flatMap,
    List.map_map, Function.comp_def, embeds.literal.union]

theorem Formula.distribute_map (f : β → δ) (embeds : Embeds g) (formula : Formula β α) :
    (formula.map f g).distribute = formula.distribute.map (ClauseSet.mapAtoms g) := by
  induction formula with
  | truth value => cases value <;> rfl
  | atom => rfl
  | not body => cases body <;> rfl
  | binary connective left right leftIh rightIh =>
      cases connective with
      | and =>
          simp only [map, distribute, leftIh, rightIh]
          cases left.distribute with
          | error => rfl
          | ok first =>
              cases right.distribute with
              | error => rfl
              | ok second => exact congrArg Except.ok (embeds.literal.list.union first second)
      | or =>
          simp only [map, distribute, leftIh, rightIh]
          cases left.distribute with
          | error => rfl
          | ok first =>
              cases right.distribute with
              | error => rfl
              | ok second =>
                  exact congrArg Except.ok (ClauseSet.product_mapAtoms embeds first second)
      | implies | equiv => rfl
  | quantified => rfl

omit [Ord α] [Ord γ] in
theorem ClauseSet.withoutTautologies_mapAtoms [DecidableEq α] [DecidableEq γ]
    (injective : Function.Injective g) (clauses : ClauseSet α) :
    (clauses.mapAtoms g).withoutTautologies = clauses.withoutTautologies.mapAtoms g := by
  have sameTest (clause : Disjunction α) :
      Disjunction.isTautology (clause.map (Literal.map g)) = Disjunction.isTautology clause := by
    fun_induction Disjunction.isTautology clause with
    | case1 | case2 => rfl
    | case3 first second rest ih =>
        have sameAtoms : decide ((first.map g).atom = (second.map g).atom) =
            decide (first.atom = second.atom) := decide_eq_decide.mpr injective.eq_iff
        simp only [List.map_cons] at ih
        simp only [List.map_cons, Disjunction.isTautology, sameAtoms, ih]
  simp only [withoutTautologies, mapAtoms, List.filter_map, Function.comp_def, sameTest]

namespace FirstOrder

variable {ρ : Renumbering} {signature renumbered : Signature}
variable {clauses : List Clause}

/-! ## Clauses on canonical variables -/

/-- Renumbering some clauses in order and renaming them one after the other onto the
canonical variables, which get other new numbers than the variables of the clauses. -/
theorem Signature.Follows.canonicalAll {other : Renumbering}
    (follows : signature.Follows other renumbered) (sameFunctions : ρ.onFunction = other.onFunction)
    (samePredicates : ρ.onPredicate = other.onPredicate)
    (increasing : ∀ c ∈ clauses, Sorted.IsIncreasing c.literals) :
    (Clause.canonicalAll (clauses.map (Clause.renumber ρ)) renumbered).1 =
      (Clause.canonicalAll clauses signature).1.map (Clause.renumber other) := by
  induction clauses generalizing signature renumbered with
  | nil => rfl
  | cons c rest ih =>
      have count : (c.renumber ρ).vars.length = c.vars.length := by
        rw [Clause.vars_renumber, List.length_map]
      have reserved := follows.reserveCanonical c.vars.length
      have isMatch : (signature.reserveCanonical c.vars.length).Matches other 0 c.vars.length
          (renumbered.reserveCanonical c.vars.length) :=
        reserved.matches_of_le (by simpa using (signature.reserveCanonical_spec _).2)
          (by simpa using (renumbered.reserveCanonical_spec _).2)
      have first := Clause.normalize_renumber (increasing c (List.mem_cons_self ..)) sameFunctions
        samePredicates isMatch
      have others := ih reserved fun d mem => increasing d (List.mem_cons_of_mem _ mem)
      simp only [List.map_cons, Clause.canonicalAll, Clause.canonical, count, first, others]

/-! ## Skolemization -/

/-- A formula over the new numbers. -/
abbrev renumberFormula (ρ : Renumbering) : Formula Variable Atom → Formula Variable Atom :=
  Formula.map ρ.onVariable (Atom.renumber ρ)

namespace Signature

/-- The variables that two signatures create from now on correspond. -/
def VariablesInStep (ρ : Renumbering) (signature renumbered : Signature) : Prop :=
  ∀ count, ρ.onVariable ⟨signature.vars.size + count⟩ = ⟨renumbered.vars.size + count⟩

/-- The functions that two signatures create from now on correspond. -/
def FunctionsInStep (ρ : Renumbering) (signature renumbered : Signature) : Prop :=
  ∀ count, ρ.onFunction ⟨signature.functions.size + count⟩ = ⟨renumbered.functions.size + count⟩

theorem VariablesInStep.addVariable (inStep : signature.VariablesInStep ρ renumbered)
    (name otherName : String) :
    (renumbered.addVariable otherName).1 = ρ.onVariable (signature.addVariable name).1 ∧
      (signature.addVariable name).2.VariablesInStep ρ (renumbered.addVariable otherName).2 := by
  refine ⟨(inStep 0).symm, fun count => ?_⟩
  simp only [Signature.addVariable, Array.size_push, Nat.add_assoc]
  exact inStep (1 + count)

theorem FunctionsInStep.addSkolem (inStep : signature.FunctionsInStep ρ renumbered) (arity : Nat) :
    (renumbered.addSkolem arity).1 = ρ.onFunction (signature.addSkolem arity).1 ∧
      (signature.addSkolem arity).2.FunctionsInStep ρ (renumbered.addSkolem arity).2 := by
  refine ⟨(inStep 0).symm, fun count => ?_⟩
  simp only [Signature.addSkolem, Array.size_push, Nat.add_assoc]
  exact inStep (1 + count)

end Signature

namespace Skolemization

/-- Two Skolemizations create what corresponds from now on. -/
structure InStep (ρ : Renumbering) (state renumbered : Skolemization) : Prop where
  nextVariables : state.signature.VariablesInStep ρ renumbered.signature
  nextFunctions : state.signature.FunctionsInStep ρ renumbered.signature

/-- Renumbering a formula before or after its quantifiers are removed. -/
theorem run_renumber (formula : Formula Variable Atom) {universals : List Variable}
    {σ : Substitution} {state renumbered : Skolemization} (inStep : state.InStep ρ renumbered) :
    (run (universals.map ρ.onVariable) (σ.renumber ρ) (renumberFormula ρ formula) renumbered).1 =
        (run universals σ formula state).1.map (renumberFormula ρ) ∧
      (run universals σ formula state).2.InStep ρ
        (run (universals.map ρ.onVariable) (σ.renumber ρ) (renumberFormula ρ formula)
          renumbered).2 := by
  induction formula generalizing universals σ state renumbered with
  | truth => exact ⟨rfl, inStep⟩
  | atom a =>
      refine ⟨?_, inStep⟩
      simp only [Formula.map, run, Atom.apply_renumber]
      rfl
  | not body =>
      cases body with
      | atom a =>
          refine ⟨?_, inStep⟩
          simp only [Formula.map, run, Atom.apply_renumber]
          rfl
      | truth | not | binary | quantified => exact ⟨rfl, inStep⟩
  | binary connective left right leftIh rightIh =>
      cases connective with
      | implies | equiv => exact ⟨rfl, inStep⟩
      | and | or =>
          obtain ⟨leftResult, leftInStep⟩ := @leftIh universals σ _ _ inStep
          simp only [Formula.map, run]
          generalize run universals σ left state = first at leftResult leftInStep ⊢
          generalize run (universals.map ρ.onVariable) (σ.renumber ρ)
            (left.map ρ.onVariable (Atom.renumber ρ)) renumbered = renumberedFirst
            at leftResult leftInStep ⊢
          obtain ⟨result, after⟩ := first
          obtain ⟨_, renumberedAfter⟩ := renumberedFirst
          subst leftResult
          cases result with
          | error => exact ⟨rfl, leftInStep⟩
          | ok skolemizedLeft =>
              obtain ⟨rightResult, rightInStep⟩ := @rightIh universals σ _ _ leftInStep
              simp only [Except.map]
              generalize run universals σ right after = second at rightResult rightInStep ⊢
              generalize run (universals.map ρ.onVariable) (σ.renumber ρ)
                (right.map ρ.onVariable (Atom.renumber ρ)) renumberedAfter = renumberedSecond
                at rightResult rightInStep ⊢
              obtain ⟨result, last⟩ := second
              obtain ⟨_, renumberedLast⟩ := renumberedSecond
              subst rightResult
              cases result with
              | error => exact ⟨rfl, rightInStep⟩
              | ok skolemizedRight => exact ⟨rfl, rightInStep⟩
  | quantified quantifier v body ih =>
      cases quantifier with
      | universal =>
          obtain ⟨sameVariable, nextVariables⟩ := inStep.nextVariables.addVariable
            (state.signature.variableName v) (renumbered.signature.variableName (ρ.onVariable v))
          simp only [Formula.map, run, sameVariable]
          generalize (state.signature.addVariable (state.signature.variableName v)).1 = fresh
          have inside := @ih (universals ++ [fresh]) (σ.insert v (.var fresh))
            ⟨_, state.witnesses⟩ ⟨_, renumbered.witnesses⟩ ⟨nextVariables, inStep.nextFunctions⟩
          rwa [List.map_append, List.map_singleton, ← Substitution.insert_renumber,
            Term.renumber_var] at inside
      | existential =>
          obtain ⟨sameFunction, nextFunctions⟩ :=
            inStep.nextFunctions.addSkolem universals.length
          simp only [Formula.map, run, sameFunction, List.length_map]
          generalize (state.signature.addSkolem universals.length).1 = witness
          have sameArgs : (universals.map Term.var).map (Term.renumber ρ) =
              (universals.map ρ.onVariable).map .var := by
            simp
          have inside := @ih universals (σ.insert v (.app witness (universals.map .var)))
            ⟨(state.signature.addSkolem universals.length).2, (v, witness) :: state.witnesses⟩
            ⟨(renumbered.signature.addSkolem universals.length).2,
              (ρ.onVariable v, ρ.onFunction witness) :: renumbered.witnesses⟩
            ⟨inStep.nextVariables, nextFunctions⟩
          rwa [← Substitution.insert_renumber, Term.renumber_app, sameArgs] at inside

end Skolemization

/-! ## Clauses of a formula -/

/-- The clauses of a formula in negation normal form without quantifiers. -/
def quantifierFreeClauses (formula : Formula Variable Atom) : Except Error (List Clause) :=
  formula.distribute.map fun disjunctions => disjunctions.withoutTautologies.map Clause.ofList

theorem quantifierFreeClauses_renumber (formula : Formula Variable Atom) :
    quantifierFreeClauses (renumberFormula ρ formula) =
      (quantifierFreeClauses formula).map (List.map (Clause.renumber ρ)) := by
  simp only [quantifierFreeClauses, Formula.distribute_map _ (Atom.embeds_renumber ρ)]
  cases formula.distribute with
  | error => rfl
  | ok disjunctions =>
      simp only [Except.map,
        ClauseSet.withoutTautologies_mapAtoms (Atom.embeds_renumber ρ).injective, List.map_map,
        Function.comp_def, ← Clause.ofList_renumber]

theorem isIncreasing_of_quantifierFreeClauses {formula : Formula Variable Atom}
    (made : quantifierFreeClauses formula = .ok clauses) :
    ∀ c ∈ clauses, Sorted.IsIncreasing c.literals := by
  unfold quantifierFreeClauses at made
  cases distributed : formula.distribute with
  | error =>
      rw [distributed] at made
      cases made
  | ok disjunctions =>
      rw [distributed] at made
      cases made
      intro c mem
      obtain ⟨disjunction, -, rfl⟩ := List.mem_map.mp mem
      exact Sorted.isIncreasing_ofList disjunction

/-- The clauses of a formula before they are renamed, and the signature at that
point. -/
def unrenamedClauses (invert : Bool) (free : List Variable) (formula : Formula Variable Atom)
    (signature : Signature) : Except Error (List Clause) × Signature :=
  match formula.negationNormal invert with
  | .error error => (.error error, signature)
  | .ok normal =>
      let (skolemized, state) := skolemize free normal signature
      (skolemized.bind quantifierFreeClauses, state.signature)

/-- The clauses of a formula are renamed onto the canonical variables. -/
theorem clausesOf_eq (invert : Bool) (free : List Variable) (formula : Formula Variable Atom)
    (signature : Signature) :
    (clausesOf invert free formula signature).clauses =
        (unrenamedClauses invert free formula signature).1.map (fun clauses =>
          (Clause.canonicalAll clauses (unrenamedClauses invert free formula signature).2).1) ∧
      ∀ clauses, (unrenamedClauses invert free formula signature).1 = .ok clauses →
        (clausesOf invert free formula signature).signature =
          (Clause.canonicalAll clauses (unrenamedClauses invert free formula signature).2).2 := by
  unfold clausesOf unrenamedClauses clausesOfNormal
  cases formula.negationNormal invert with
  | error => exact ⟨rfl, nofun⟩
  | ok normal =>
      simp only
      obtain ⟨skolemized, state⟩ := skolemize free normal signature
      cases skolemized with
      | error => exact ⟨rfl, nofun⟩
      | ok skolemized =>
          simp only [Except.bind, quantifierFreeClauses]
          cases skolemized.distribute with
          | error => exact ⟨rfl, nofun⟩
          | ok disjunctions =>
              refine ⟨rfl, ?_⟩
              rintro _ ⟨rfl⟩
              rfl

theorem isIncreasing_of_unrenamedClauses {invert : Bool} {free : List Variable}
    {formula : Formula Variable Atom}
    (made : (unrenamedClauses invert free formula signature).1 = .ok clauses) :
    ∀ c ∈ clauses, Sorted.IsIncreasing c.literals := by
  unfold unrenamedClauses at made
  cases normalized : formula.negationNormal invert with
  | error =>
      rw [normalized] at made
      cases made
  | ok normal =>
      simp only [normalized] at made
      cases skolemized : (skolemize free normal signature).1 with
      | error =>
          rw [skolemized] at made
          cases made
      | ok quantifierFree =>
          rw [skolemized] at made
          exact isIncreasing_of_quantifierFreeClauses made

/-- Renumbering a formula before or after it is turned into clauses. -/
theorem unrenamedClauses_renumber {invert : Bool} {free : List Variable}
    {formula : Formula Variable Atom} (nextVariables : signature.VariablesInStep ρ renumbered)
    (nextFunctions : signature.FunctionsInStep ρ renumbered) :
    (unrenamedClauses invert (free.map ρ.onVariable) (renumberFormula ρ formula) renumbered).1 =
      (unrenamedClauses invert free formula signature).1.map (List.map (Clause.renumber ρ)) := by
  simp only [unrenamedClauses, Formula.negationNormal_map]
  cases formula.negationNormal invert with
  | error => rfl
  | ok normal =>
      have start : Skolemization.InStep ρ ⟨signature, []⟩ ⟨renumbered, []⟩ :=
        ⟨nextVariables, nextFunctions⟩
      have skolemizes :
          (skolemize (free.map ρ.onVariable) (renumberFormula ρ normal) renumbered).1 =
          (skolemize free normal signature).1.map (renumberFormula ρ) :=
        (@Skolemization.run_renumber ρ normal free .empty _ _ start).1
      simp only [Except.map] at skolemizes ⊢
      rw [skolemizes]
      cases (skolemize free normal signature).1 with
      | error => rfl
      | ok quantifierFree => exact quantifierFreeClauses_renumber quantifierFree

end FirstOrder

end Entailment
