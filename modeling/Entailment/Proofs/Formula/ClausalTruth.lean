import Entailment.Formula.Clausal
import Entailment.Order.SortedLemmas
import Entailment.Proofs.Formula.Truth

/-!
# Truth of clauses

A disjunction of literals is true when one of its literals is, and a set of
disjunctions when all of them are.  Distribution succeeds on every quantifier
free formula in negation normal form and keeps its meaning, and so does leaving
out tautologies.

Both levels of a clause set are kept as sorted lists.  That the literals of a
disjunction are strictly increasing is used once: the two literals of an atom are
neighbours then, and neighbours with one atom have different signs.
-/

namespace Entailment

universe u

open Std (TransOrd LawfulEqOrd)

variable {α : Type}

/-- The truth of a literal, where `meaning` says which atoms are true. -/
def Literal.Holds (meaning : α → Prop) (literal : Literal α) : Prop :=
  match literal.sign with
  | .positive => meaning literal.atom
  | .negative => ¬meaning literal.atom

/-- A disjunction is true when one of its literals is. -/
def Disjunction.Holds (meaning : α → Prop) (clause : Disjunction α) : Prop :=
  ∃ literal ∈ clause, literal.Holds meaning

/-- A clause set is true when all of its disjunctions are. -/
def ClauseSet.Holds (meaning : α → Prop) (clauses : ClauseSet α) : Prop :=
  ∀ clause ∈ clauses, Disjunction.Holds meaning clause

namespace Literal

@[simp]
theorem holds_positive (meaning : α → Prop) (a : α) : (positive a).Holds meaning ↔ meaning a :=
  Iff.rfl

@[simp]
theorem holds_negative (meaning : α → Prop) (a : α) : (negative a).Holds meaning ↔ ¬meaning a :=
  Iff.rfl

/-- Two literals of one atom that are not the same literal have different
signs, and one of them is true. -/
theorem holds_or_holds {meaning : α → Prop} {left right : Literal α}
    (sameAtom : left.atom = right.atom) (different : left ≠ right) :
    left.Holds meaning ∨ right.Holds meaning := by
  obtain ⟨a, sign⟩ := left
  obtain ⟨b, otherSign⟩ := right
  simp only at sameAtom
  subst sameAtom
  cases sign <;> cases otherSign
  · exact absurd rfl different
  · exact Classical.em _
  · exact (Classical.em _).symm
  · exact absurd rfl different

section

variable [Ord α] {left right : Literal α}

/-- Literals are ordered by their atoms first. -/
theorem isLE_atom_of_isLE (le : (compare left right).isLE = true) :
    (compare left.atom right.atom).isLE = true := by
  rw [compare_def] at le
  cases atoms : compare left.atom right.atom <;> simp_all [Ordering.then]

/-- A positive literal before a negative one of the same atom. -/
theorem eq_of_atom_eq [LawfulEqOrd α] (before : compare left right = .lt)
    (sameAtom : left.atom = right.atom) :
    left = .positive left.atom ∧ right = .negative left.atom := by
  obtain ⟨a, sign⟩ := left
  obtain ⟨b, otherSign⟩ := right
  obtain rfl : a = b := sameAtom
  simp only [compare_def, Std.ReflCmp.compare_self, Ordering.then] at before
  cases sign with
  | positive =>
      cases otherSign with
      | positive => cases before
      | negative => exact ⟨rfl, rfl⟩
  | negative => cases otherSign <;> cases before

end

end Literal

namespace Disjunction

/-- A disjunction of both literals of an atom and others is always true. -/
theorem holds_of_mem_of_mem {meaning : α → Prop} {clause : Disjunction α} {a : α}
    (isPositive : .positive a ∈ clause) (isNegative : .negative a ∈ clause) :
    Holds meaning clause := by
  by_cases isTrue : meaning a
  · exact ⟨.positive a, isPositive, isTrue⟩
  · exact ⟨.negative a, isNegative, isTrue⟩

variable [Ord α] [LawfulEqOrd α]

theorem holds_union (meaning : α → Prop) (left right : Disjunction α) :
    Holds meaning (Sorted.union left right) ↔ Holds meaning left ∨ Holds meaning right := by
  simp only [Holds, Sorted.mem_union, or_and_right, exists_or]

variable [TransOrd α] {clause : Disjunction α}

/-- A literal between the two literals of an atom is one of them. -/
theorem atom_eq_of_between {a : α} {literal : Literal α}
    (first : compare (.positive a) literal = .lt)
    (last : (compare literal (.negative a)).isLE = true) : literal.atom = a := by
  have above : (compare a literal.atom).isLE = true :=
    Literal.isLE_atom_of_isLE (Ordering.isLE_of_eq_lt first)
  have below : (compare literal.atom a).isLE = true := Literal.isLE_atom_of_isLE last
  exact LawfulEqOrd.eq_of_compare (Std.OrientedCmp.isLE_antisymm below above)

/-- In a sorted disjunction the two literals of an atom are neighbours. -/
theorem isTautology_iff [DecidableEq α] (increasing : Sorted.IsIncreasing clause) :
    isTautology clause = true ↔ ∃ a, .positive a ∈ clause ∧ .negative a ∈ clause := by
  fun_induction isTautology clause with
  | case1 => simp
  | case2 literal =>
      simp only [List.mem_singleton, Bool.false_eq_true, false_iff]
      rintro ⟨a, isPositive, isNegative⟩
      cases isPositive.trans isNegative.symm
  | case3 first second rest ih =>
      obtain ⟨below, restIncreasing⟩ := List.pairwise_cons.mp increasing
      have before := below second (List.mem_cons_self ..)
      rw [Bool.or_eq_true, decide_eq_true_eq, ih restIncreasing]
      constructor
      · rintro (sameAtom | ⟨a, isPositive, isNegative⟩)
        · obtain ⟨isFirst, isSecond⟩ := Literal.eq_of_atom_eq before sameAtom
          exact ⟨first.atom, isFirst ▸ List.mem_cons_self .., by simp [← isSecond]⟩
        · exact ⟨a, List.mem_cons_of_mem _ isPositive, List.mem_cons_of_mem _ isNegative⟩
      · rintro ⟨a, isPositive, isNegative⟩
        rcases List.mem_cons.mp isPositive with rfl | positiveLater
        · have negativeLater : .negative a ∈ second :: rest :=
            (List.mem_cons.mp isNegative).resolve_left
              (by simp [Literal.negative, Literal.positive])
          have last : (compare second (.negative a)).isLE = true := by
            rcases List.mem_cons.mp negativeLater with rfl | later
            · simp
            · exact Ordering.isLE_of_eq_lt ((List.pairwise_cons.mp restIncreasing).1 _ later)
          exact .inl (atom_eq_of_between before last).symm
        · rcases List.mem_cons.mp isNegative with rfl | negativeLater
          · -- The positive literal would come first.
            cases (Literal.eq_of_atom_eq (below _ positiveLater) rfl).1
          · exact .inr ⟨a, positiveLater, negativeLater⟩

/-- A sorted disjunction in which neighbours have the same atom is always
true. -/
theorem holds_of_isTautology [DecidableEq α] (meaning : α → Prop)
    (increasing : Sorted.IsIncreasing clause) (tautology : isTautology clause = true) :
    Holds meaning clause := by
  obtain ⟨a, isPositive, isNegative⟩ := (isTautology_iff increasing).mp tautology
  exact holds_of_mem_of_mem isPositive isNegative

end Disjunction

namespace ClauseSet

variable [Ord α]

theorem holds_union [LawfulEqOrd α] (meaning : α → Prop) (left right : ClauseSet α) :
    Holds meaning (Sorted.union left right) ↔ Holds meaning left ∧ Holds meaning right := by
  simp only [Holds, Sorted.mem_union]
  constructor
  · intro all
    exact ⟨fun clause mem => all clause (.inl mem), fun clause mem => all clause (.inr mem)⟩
  · rintro ⟨leftAll, rightAll⟩ clause (mem | mem)
    · exact leftAll clause mem
    · exact rightAll clause mem

theorem mem_product [LawfulEqOrd α] {clause : Disjunction α} {left right : ClauseSet α} :
    clause ∈ product left right ↔
      ∃ first ∈ left, ∃ second ∈ right, Sorted.union first second = clause := by
  simp only [product, Sorted.mem_ofList, List.mem_flatMap, List.mem_map]

/-- The product of two clause sets is true when one of them is: a disjunction
that fails on the left makes all disjunctions on the right true. -/
theorem holds_product [LawfulEqOrd α] (meaning : α → Prop) (left right : ClauseSet α) :
    Holds meaning (product left right) ↔ Holds meaning left ∨ Holds meaning right := by
  constructor
  · intro all
    by_contra neither
    simp only [Holds, not_or, not_forall] at neither
    obtain ⟨⟨first, firstMem, firstFails⟩, ⟨second, secondMem, secondFails⟩⟩ := neither
    have joined := all _ (mem_product.mpr ⟨first, firstMem, second, secondMem, rfl⟩)
    rcases (Disjunction.holds_union meaning first second).mp joined with holds | holds
    · exact firstFails holds
    · exact secondFails holds
  · intro either clause mem
    obtain ⟨first, firstMem, second, secondMem, rfl⟩ := mem_product.mp mem
    rw [Disjunction.holds_union]
    exact either.imp (fun all => all first firstMem) fun all => all second secondMem

/-- Leaving out tautologies of sorted disjunctions changes nothing. -/
theorem holds_withoutTautologies [TransOrd α] [LawfulEqOrd α] [DecidableEq α] (meaning : α → Prop)
    {clauses : ClauseSet α} (increasing : ∀ clause ∈ clauses, Sorted.IsIncreasing clause) :
    Holds meaning clauses.withoutTautologies ↔ Holds meaning clauses := by
  simp only [Holds, withoutTautologies, List.mem_filter, Bool.not_eq_true']
  constructor
  · intro all clause mem
    cases tautology : Disjunction.isTautology clause with
    | true => exact Disjunction.holds_of_isTautology meaning (increasing clause mem) tautology
    | false => exact all clause ⟨mem, tautology⟩
  · intro all clause mem
    exact all clause mem.1

end ClauseSet

namespace Formula

variable {β : Type} [DecidableEq β]

/-- What it means that a clause set is a clausal form of a formula. -/
structure IsClausalFormOf [Ord α] (formula : Formula β α) (clauses : ClauseSet α) : Prop where
  holds_iff : ∀ {D : Type u} (meaning : (β → D) → α → Prop) (ρ : β → D),
    ClauseSet.Holds (meaning ρ) clauses ↔ formula.Holds meaning ρ
  isIncreasing : ∀ clause ∈ clauses, Sorted.IsIncreasing clause
  atoms : ∀ {property : α → Prop} {bound : List β},
    formula.EveryAtom (fun _ a => property a) bound →
      ∀ clause ∈ clauses, ∀ literal ∈ clause, property literal.atom

/-- A quantifier free formula in negation normal form can be distributed. -/
theorem distribute_spec [Ord α] [TransOrd α] [LawfulEqOrd α] {formula : Formula β α}
    (isNormal : formula.IsNegationNormal) (free : formula.isQuantifierFree = true) :
    ∃ clauses, formula.distribute = .ok clauses ∧ IsClausalFormOf.{u} formula clauses := by
  fun_induction distribute formula with
  | case1 => exact ⟨[], rfl, by simp [ClauseSet.Holds, Holds], by simp, by simp⟩
  | case2 =>
      exact ⟨[[]], rfl, by simp [ClauseSet.Holds, Disjunction.Holds, Holds],
        by simp [Sorted.IsIncreasing], by simp⟩
  | case3 a =>
      exact ⟨[[.positive a]], rfl, by simp [ClauseSet.Holds, Disjunction.Holds, Holds],
        by simp [Sorted.IsIncreasing], by simp [EveryAtom, Literal.positive]⟩
  | case4 a =>
      exact ⟨[[.negative a]], rfl, by simp [ClauseSet.Holds, Disjunction.Holds, Holds],
        by simp [Sorted.IsIncreasing], by simp [EveryAtom, Literal.negative]⟩
  | case5 body notAtom =>
      cases body with
      | atom a => exact absurd rfl (notAtom a)
      | _ => exact isNormal.elim
  | case6 left right leftIh rightIh =>
      obtain ⟨leftFree, rightFree⟩ := Bool.and_eq_true_iff.mp free
      obtain ⟨leftClauses, leftDone, leftForm⟩ := leftIh isNormal.1 leftFree
      obtain ⟨rightClauses, rightDone, rightForm⟩ := rightIh isNormal.2 rightFree
      refine ⟨Sorted.union leftClauses rightClauses, by rw [leftDone, rightDone]; rfl,
        fun meaning ρ => ?_, fun clause mem => ?_, fun every clause mem => ?_⟩
      · rw [ClauseSet.holds_union, leftForm.holds_iff, rightForm.holds_iff]
        rfl
      · rcases Sorted.mem_union.mp mem with mem | mem
        · exact leftForm.isIncreasing clause mem
        · exact rightForm.isIncreasing clause mem
      · rcases Sorted.mem_union.mp mem with mem | mem
        · exact leftForm.atoms every.1 clause mem
        · exact rightForm.atoms every.2 clause mem
  | case7 left right leftIh rightIh =>
      obtain ⟨leftFree, rightFree⟩ := Bool.and_eq_true_iff.mp free
      obtain ⟨leftClauses, leftDone, leftForm⟩ := leftIh isNormal.1 leftFree
      obtain ⟨rightClauses, rightDone, rightForm⟩ := rightIh isNormal.2 rightFree
      refine ⟨ClauseSet.product leftClauses rightClauses, by rw [leftDone, rightDone]; rfl,
        fun meaning ρ => ?_, fun clause mem => ?_, fun every clause mem literal literalMem => ?_⟩
      · rw [ClauseSet.holds_product, leftForm.holds_iff, rightForm.holds_iff]
        rfl
      · obtain ⟨first, firstMem, second, secondMem, rfl⟩ := ClauseSet.mem_product.mp mem
        exact Sorted.isIncreasing_ofList _
      · obtain ⟨first, firstMem, second, secondMem, rfl⟩ := ClauseSet.mem_product.mp mem
        rcases Sorted.mem_union.mp literalMem with literalMem | literalMem
        · exact leftForm.atoms every.1 first firstMem literal literalMem
        · exact rightForm.atoms every.2 second secondMem literal literalMem
  | case8 connective left right notAnd notOr =>
      cases connective with
      | and => exact absurd rfl notAnd
      | or => exact absurd rfl notOr
      | implies => exact isNormal.elim
      | equiv => exact isNormal.elim
  | case9 => cases free

/-- The clauses of a quantifier free formula exist and say what it says, or what
its negation says with `invert`. -/
theorem clauses_spec [Ord α] [TransOrd α] [LawfulEqOrd α] [DecidableEq α] (invert : Bool)
    {formula : Formula β α} (free : formula.isQuantifierFree = true) :
    ∃ clauses, formula.clauses invert = .ok clauses ∧
      (∀ {D : Type u} (meaning : (β → D) → α → Prop) (ρ : β → D),
        ClauseSet.Holds (meaning ρ) clauses ↔ inverted invert (formula.Holds meaning ρ)) ∧
      ∀ {property : α → Prop}, formula.EveryAtom (fun _ a => property a) [] →
        ∀ clause ∈ clauses, ∀ literal ∈ clause, property literal.atom := by
  obtain ⟨normal, normalized, form⟩ := negationNormal_spec.{u} invert formula
  obtain ⟨distributed, done, clausal⟩ :=
    distribute_spec.{u} form.isNormal (form.isQuantifierFree free)
  refine ⟨distributed.withoutTautologies,
    by simp [clauses, normalized, done, bind, Except.bind, pure, Except.pure],
    fun meaning ρ => ?_, fun every clause mem => ?_⟩
  · rw [ClauseSet.holds_withoutTautologies _ clausal.isIncreasing, clausal.holds_iff,
      form.holds_iff]
  · exact clausal.atoms (form.everyAtom every) clause (List.mem_filter.mp mem).1

end Formula

end Entailment
