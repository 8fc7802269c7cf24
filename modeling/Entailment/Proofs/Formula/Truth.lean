import Entailment.Formula.NegationNormal
import Mathlib.Logic.Basic
import Mathlib.Logic.Function.Basic

/-!
# Truth of formulas

A formula is true or false once its atoms are and its quantifiers range over a
domain.  `Formula.Holds` takes the meaning of an atom under a valuation of the
binders, so it serves propositional formulas, written formulas and formulas
over a signature alike.

The second part shows that negation normal form keeps the meaning: it always
exists, it has the truth value of the formula (or of its negation), and it has
no atom in a place where the formula has none.
-/

namespace Entailment

universe u

/-- The truth of a compound, given that of its parts. -/
def Connective.Holds : Connective → Prop → Prop → Prop
  | and, left, right => left ∧ right
  | or, left, right => left ∨ right
  | implies, left, right => left → right
  | equiv, left, right => left ↔ right

/-- The truth of a quantified statement about the elements of a domain. -/
def Quantifier.Holds {D : Type u} : Quantifier → (D → Prop) → Prop
  | universal, statement => ∀ d, statement d
  | existential, statement => ∃ d, statement d

/-- A proposition, or its negation with `invert`. -/
def inverted (invert : Bool) (statement : Prop) : Prop :=
  if invert then ¬statement else statement

@[simp]
theorem inverted_false (statement : Prop) : inverted false statement = statement := rfl

@[simp]
theorem inverted_true (statement : Prop) : inverted true statement = ¬statement := rfl

theorem inverted_not (invert : Bool) (statement : Prop) :
    inverted (!invert) statement ↔ inverted invert ¬statement := by
  cases invert <;> simp

/-- A negation turns a quantifier into its dual. -/
theorem Quantifier.holds_dual {D : Type u} (quantifier : Quantifier) (statement : D → Prop) :
    (quantifier.dual.Holds fun d => ¬statement d) ↔ ¬quantifier.Holds statement := by
  cases quantifier <;> simp [dual, Holds]

/-- A quantifier depends on its statement only. -/
theorem Quantifier.holds_congr {D : Type u} (quantifier : Quantifier) {left right : D → Prop}
    (same : ∀ d, left d ↔ right d) : quantifier.Holds left ↔ quantifier.Holds right := by
  rw [funext fun d => propext (same d)]

namespace Formula

variable {β α : Type} {D : Type u} {property other : List β → α → Prop} {bound : List β}
  {formula : Formula β α}

/-- A property of every atom of a formula together with the binders around it,
of which `bound` are those around the formula. -/
def EveryAtom (property : List β → α → Prop) (bound : List β) : Formula β α → Prop
  | truth _ => True
  | atom a => property bound a
  | not body => body.EveryAtom property bound
  | binary _ left right => left.EveryAtom property bound ∧ right.EveryAtom property bound
  | quantified _ binder body => body.EveryAtom property (binder :: bound)

/-- The same formula below other binders. -/
theorem EveryAtom.rebase {above : List β}
    (weaker : ∀ binders a, property (binders ++ bound) a → other (binders ++ above) a)
    (every : formula.EveryAtom property bound) : formula.EveryAtom other above := by
  induction formula generalizing bound above with
  | truth value => trivial
  | atom a => exact weaker [] a every
  | not body ih => exact ih weaker every
  | binary connective left right leftIh rightIh =>
      exact ⟨leftIh weaker every.1, rightIh weaker every.2⟩
  | quantified quantifier binder body ih =>
      refine ih (fun binders a good => ?_) every
      have weakened := weaker (binders ++ [binder]) a
      simp only [List.append_assoc, List.cons_append, List.nil_append] at weakened
      exact weakened good

theorem EveryAtom.imp (weaker : ∀ bound a, property bound a → other bound a)
    (every : formula.EveryAtom property bound) : formula.EveryAtom other bound :=
  every.rebase fun binders => weaker (binders ++ bound)

theorem EveryAtom.and (first : formula.EveryAtom property bound)
    (second : formula.EveryAtom other bound) :
    formula.EveryAtom (fun binders a => property binders a ∧ other binders a) bound := by
  induction formula generalizing bound with
  | truth value => trivial
  | atom a => exact ⟨first, second⟩
  | not body ih => exact ih first second
  | binary connective left right leftIh rightIh =>
      exact ⟨leftIh first.1 second.1, rightIh first.2 second.2⟩
  | quantified quantifier binder body ih => exact ih first second

/-- The binders around a formula do not matter to a property of atoms alone. -/
theorem EveryAtom.anyBound {property : α → Prop}
    (every : formula.EveryAtom (fun _ a => property a) bound) (above : List β) :
    formula.EveryAtom (fun _ a => property a) above :=
  every.rebase fun _ _ good => good

/-- What is known of every atom of a formula is known of each of them. -/
theorem EveryAtom.of_mem_atoms {property : α → Prop}
    (every : formula.EveryAtom (fun _ a => property a) bound) {a : α}
    (mem : a ∈ formula.atoms) : property a := by
  induction formula generalizing bound with
  | truth value => cases mem
  | atom b => exact List.mem_singleton.mp mem ▸ every
  | not body ih => exact ih every mem
  | binary connective left right ihLeft ihRight =>
      rcases List.mem_append.mp mem with inLeft | inRight
      · exact ihLeft every.1 inLeft
      · exact ihRight every.2 inRight
  | quantified quantifier binder body ih => exact ih every mem

variable [DecidableEq β]

/-- The truth of a formula, where `meaning` says which atoms are true under a
valuation of the binders. -/
def Holds (meaning : (β → D) → α → Prop) (ρ : β → D) : Formula β α → Prop
  | truth value => value = true
  | atom a => meaning ρ a
  | not body => ¬body.Holds meaning ρ
  | binary connective left right =>
      connective.Holds (left.Holds meaning ρ) (right.Holds meaning ρ)
  | quantified quantifier binder body =>
      quantifier.Holds fun d => body.Holds meaning (Function.update ρ binder d)

/-- A formula is true in the same cases under two meanings of its atoms that
agree on them. -/
theorem holds_congr {meaning other : (β → D) → α → Prop}
    (agree : List β → (β → D) → (β → D) → Prop)
    (atoms : ∀ bound a ρ ρ', property bound a → agree bound ρ ρ' → (meaning ρ a ↔ other ρ' a))
    (binders : ∀ bound ρ ρ' binder d, agree bound ρ ρ' →
      agree (binder :: bound) (Function.update ρ binder d) (Function.update ρ' binder d))
    {ρ ρ' : β → D} (every : formula.EveryAtom property bound) (agreed : agree bound ρ ρ') :
    formula.Holds meaning ρ ↔ formula.Holds other ρ' := by
  induction formula generalizing bound ρ ρ' with
  | truth value => rfl
  | atom a => exact atoms bound a ρ ρ' every agreed
  | not body ih => exact not_congr (ih every agreed)
  | binary connective left right leftIh rightIh =>
      simp only [Holds, propext (leftIh every.1 agreed), propext (rightIh every.2 agreed)]
  | quantified quantifier binder body ih =>
      exact quantifier.holds_congr fun d => ih every (binders bound ρ ρ' binder d agreed)

/-! ## Negation normal form -/

/-- Whether a formula is built from literals and truth constants by conjunction,
disjunction and quantifiers. -/
def IsNegationNormal : Formula β α → Prop
  | truth _ => True
  | atom _ => True
  | not (.atom _) => True
  | not _ => False
  | binary .and left right => left.IsNegationNormal ∧ right.IsNegationNormal
  | binary .or left right => left.IsNegationNormal ∧ right.IsNegationNormal
  | binary _ _ _ => False
  | quantified _ _ body => body.IsNegationNormal

/-- Whether a connective does not occur in a formula. -/
def Avoids (connective : Connective) : Formula β α → Prop
  | truth _ => True
  | atom _ => True
  | not body => body.Avoids connective
  | binary other left right =>
      other ≠ connective ∧ left.Avoids connective ∧ right.Avoids connective
  | quantified _ _ body => body.Avoids connective

/-- What is kept when parts of a formula are replaced by equivalent ones with the same atoms. -/
structure IsRewritingOf (formula rewritten : Formula β α) : Prop where
  holds_iff : ∀ {D : Type u} (meaning : (β → D) → α → Prop) (ρ : β → D),
    rewritten.Holds meaning ρ ↔ formula.Holds meaning ρ
  everyAtom : ∀ {property : List β → α → Prop} {bound : List β},
    formula.EveryAtom property bound → rewritten.EveryAtom property bound
  isQuantifierFree : rewritten.isQuantifierFree = formula.isQuantifierFree

namespace IsRewritingOf

variable {middle rewritten left right newLeft newRight : Formula β α}

theorem refl (formula : Formula β α) : IsRewritingOf.{u} formula formula :=
  ⟨fun _ _ => .rfl, id, rfl⟩

theorem trans (first : IsRewritingOf.{u} formula middle)
    (second : IsRewritingOf.{u} middle rewritten) : IsRewritingOf.{u} formula rewritten :=
  ⟨fun meaning ρ => (second.holds_iff meaning ρ).trans (first.holds_iff meaning ρ),
    fun every => second.everyAtom (first.everyAtom every),
    second.isQuantifierFree.trans first.isQuantifierFree⟩

theorem not (body : IsRewritingOf.{u} formula rewritten) :
    IsRewritingOf.{u} (.not formula) (.not rewritten) :=
  ⟨fun meaning ρ => not_congr (body.holds_iff meaning ρ), body.everyAtom, body.isQuantifierFree⟩

theorem binary (connective : Connective) (onLeft : IsRewritingOf.{u} left newLeft)
    (onRight : IsRewritingOf.{u} right newRight) :
    IsRewritingOf.{u} (.binary connective left right) (.binary connective newLeft newRight) := by
  refine ⟨fun meaning ρ => ?_, And.imp onLeft.everyAtom onRight.everyAtom, ?_⟩
  · simp only [Holds, onLeft.holds_iff, onRight.holds_iff]
  · simp only [Formula.isQuantifierFree, onLeft.isQuantifierFree, onRight.isQuantifierFree]

theorem quantified (quantifier : Quantifier) (binder : β)
    (body : IsRewritingOf.{u} formula rewritten) :
    IsRewritingOf.{u} (.quantified quantifier binder formula)
      (.quantified quantifier binder rewritten) :=
  ⟨fun meaning _ => quantifier.holds_congr fun _ => body.holds_iff meaning _, body.everyAtom, rfl⟩

end IsRewritingOf

theorem removeEquivalence_spec (formula : Formula β α) :
    IsRewritingOf.{u} formula formula.removeEquivalence ∧
      formula.removeEquivalence.Avoids .equiv := by
  induction formula with
  | truth value => exact ⟨.refl _, trivial⟩
  | atom a => exact ⟨.refl _, trivial⟩
  | not body ih => exact ⟨ih.1.not, ih.2⟩
  | binary connective left right leftIh rightIh =>
      have parts := leftIh.1.binary connective rightIh.1
      cases connective with
      | and | or | implies => exact ⟨parts, nofun, leftIh.2, rightIh.2⟩
      | equiv =>
          refine ⟨parts.trans ⟨fun _ _ => iff_iff_implies_and_implies.symm,
            fun every => ⟨every, every.symm⟩, ?_⟩, ?_⟩
          · rw [removeEquivalence, isQuantifierFree, isQuantifierFree, isQuantifierFree,
              isQuantifierFree, Bool.and_comm right.removeEquivalence.isQuantifierFree,
              Bool.and_self]
          · simp [removeEquivalence, Avoids, leftIh.2, rightIh.2]
  | quantified quantifier binder body ih => exact ⟨ih.1.quantified quantifier binder, ih.2⟩

theorem removeImplication_spec (noEquivalence : formula.Avoids .equiv) :
    IsRewritingOf.{u} formula formula.removeImplication ∧
      formula.removeImplication.Avoids .implies ∧ formula.removeImplication.Avoids .equiv := by
  induction formula with
  | truth value => exact ⟨.refl _, trivial, trivial⟩
  | atom a => exact ⟨.refl _, trivial, trivial⟩
  | not body ih => exact ⟨(ih noEquivalence).1.not, (ih noEquivalence).2⟩
  | binary connective left right leftIh rightIh =>
      obtain ⟨onLeft, leftAvoids⟩ := leftIh noEquivalence.2.1
      obtain ⟨onRight, rightAvoids⟩ := rightIh noEquivalence.2.2
      have parts := onLeft.binary connective onRight
      cases connective with
      | and | or =>
          exact ⟨parts, ⟨nofun, leftAvoids.1, rightAvoids.1⟩, nofun, leftAvoids.2, rightAvoids.2⟩
      | implies =>
          exact ⟨parts.trans ⟨fun _ _ => imp_iff_not_or.symm, id, rfl⟩,
            ⟨nofun, leftAvoids.1, rightAvoids.1⟩, nofun, leftAvoids.2, rightAvoids.2⟩
      | equiv => exact absurd rfl noEquivalence.1
  | quantified quantifier binder body ih =>
      exact ⟨(ih noEquivalence).1.quantified quantifier binder, (ih noEquivalence).2⟩

/-- What it means that a formula is a negation normal form of another one, or of
its negation with `invert`. -/
structure IsNormalFormOf (invert : Bool) (formula normal : Formula β α) : Prop where
  isNormal : normal.IsNegationNormal
  holds_iff : ∀ {D : Type u} (meaning : (β → D) → α → Prop) (ρ : β → D),
    normal.Holds meaning ρ ↔ inverted invert (formula.Holds meaning ρ)
  everyAtom : ∀ {property : List β → α → Prop} {bound : List β},
    formula.EveryAtom property bound → normal.EveryAtom property bound
  isQuantifierFree : formula.isQuantifierFree = true → normal.isQuantifierFree = true

/-- Negations can be moved down to the atoms of a formula without implications
and equivalences. -/
theorem pushNegation_spec (invert : Bool) (formula : Formula β α)
    (noImplication : formula.Avoids .implies) (noEquivalence : formula.Avoids .equiv) :
    ∃ normal, formula.pushNegation invert = .ok normal ∧
      IsNormalFormOf.{u} invert formula normal := by
  induction formula generalizing invert with
  | truth value =>
      refine ⟨_, rfl, trivial, fun meaning ρ => ?_, id, id⟩
      cases value <;> cases invert <;> simp [Holds]
  | atom a =>
      refine ⟨_, rfl, ?_, fun meaning ρ => ?_, fun every => ?_, fun _ => ?_⟩
      · cases invert <;> trivial
      · cases invert <;> simp [Holds]
      · cases invert <;> exact every
      · cases invert <;> rfl
  | not body ih =>
      obtain ⟨normal, pushed, isNormal, holds_iff, everyAtom, free⟩ :=
        ih (!invert) noImplication noEquivalence
      refine ⟨normal, pushed, isNormal, fun meaning ρ => ?_, everyAtom, free⟩
      exact (holds_iff meaning ρ).trans (inverted_not invert _)
  | binary connective left right leftIh rightIh =>
      obtain ⟨leftNormal, leftPushed, leftForm⟩ :=
        leftIh invert noImplication.2.1 noEquivalence.2.1
      obtain ⟨rightNormal, rightPushed, rightForm⟩ :=
        rightIh invert noImplication.2.2 noEquivalence.2.2
      have bothFree : (left.isQuantifierFree && right.isQuantifierFree) = true →
          (leftNormal.isQuantifierFree && rightNormal.isQuantifierFree) = true := by
        simp only [Bool.and_eq_true]
        exact And.imp leftForm.isQuantifierFree rightForm.isQuantifierFree
      cases connective with
      | and =>
          refine ⟨.binary (if invert then .or else .and) leftNormal rightNormal,
            by simp only [pushNegation, leftPushed, rightPushed]; rfl, ?_, fun meaning ρ => ?_,
            fun every => ⟨leftForm.everyAtom every.1, rightForm.everyAtom every.2⟩, bothFree⟩
          · cases invert <;> exact ⟨leftForm.isNormal, rightForm.isNormal⟩
          · cases invert <;>
              simp [Holds, Connective.Holds, leftForm.holds_iff, rightForm.holds_iff,
                imp_iff_not_or]
      | or =>
          refine ⟨.binary (if invert then .and else .or) leftNormal rightNormal,
            by simp only [pushNegation, leftPushed, rightPushed]; rfl, ?_, fun meaning ρ => ?_,
            fun every => ⟨leftForm.everyAtom every.1, rightForm.everyAtom every.2⟩, bothFree⟩
          · cases invert <;> exact ⟨leftForm.isNormal, rightForm.isNormal⟩
          · cases invert <;>
              simp [Holds, Connective.Holds, leftForm.holds_iff, rightForm.holds_iff]
      | implies => exact absurd rfl noImplication.1
      | equiv => exact absurd rfl noEquivalence.1
  | quantified quantifier binder body ih =>
      obtain ⟨normal, pushed, form⟩ := ih invert noImplication noEquivalence
      refine ⟨.quantified (if invert then quantifier.dual else quantifier) binder normal,
        by simp only [pushNegation, pushed]; rfl, form.isNormal, fun meaning ρ => ?_,
        fun every => form.everyAtom every, fun free => Bool.noConfusion free⟩
      cases invert with
      | false => exact quantifier.holds_congr fun d => form.holds_iff meaning _
      | true =>
          refine Iff.trans ?_ (quantifier.holds_dual _)
          exact quantifier.dual.holds_congr fun d => form.holds_iff meaning _

/-- Every formula has a negation normal form. -/
theorem negationNormal_spec (invert : Bool) (formula : Formula β α) :
    ∃ normal, formula.negationNormal invert = .ok normal ∧
      IsNormalFormOf.{u} invert formula normal := by
  obtain ⟨withoutEquivalence, noEquivalence⟩ := removeEquivalence_spec.{u} formula
  obtain ⟨withoutImplication, noImplication, stillNone⟩ := removeImplication_spec.{u} noEquivalence
  obtain ⟨normal, pushed, form⟩ := pushNegation_spec invert _ noImplication stillNone
  have rewriting := withoutEquivalence.trans withoutImplication
  refine ⟨normal, pushed, form.isNormal, fun meaning ρ => ?_, fun every => ?_, fun free => ?_⟩
  · rw [form.holds_iff, rewriting.holds_iff]
  · exact form.everyAtom (rewriting.everyAtom every)
  · exact form.isQuantifierFree (rewriting.isQuantifierFree.trans free)

end Formula

end Entailment
