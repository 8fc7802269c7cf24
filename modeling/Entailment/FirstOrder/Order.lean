import Entailment.FirstOrder.Clause

/-!
# The orders of terms, atoms and clauses

The comparison functions of symbols, terms, atoms and clauses are lawful: they
are linear orders, and only equal things compare equal.  Therefore a sorted
list of literals is determined by its elements, and maps that are ordered by
clauses find what was put in.
-/

namespace Entailment.FirstOrder

open Std (TransOrd LawfulEqOrd TransCmp)

/-! ## Symbols -/

instance : TransOrd Variable :=
  inferInstanceAs (TransCmp (compareOn Variable.index))

instance : LawfulEqOrd Variable where
  compare_self {v} := Std.ReflOrd.compare_self (a := v.index)
  eq_of_compare same := congrArg Variable.mk (LawfulEqOrd.eq_of_compare (α := Nat) same)

instance : TransOrd FunctionSymbol :=
  inferInstanceAs (TransCmp (compareOn FunctionSymbol.index))

instance : LawfulEqOrd FunctionSymbol where
  compare_self {f} := Std.ReflOrd.compare_self (a := f.index)
  eq_of_compare same := congrArg FunctionSymbol.mk (LawfulEqOrd.eq_of_compare (α := Nat) same)

instance : TransOrd PredicateSymbol :=
  inferInstanceAs (TransCmp (compareOn PredicateSymbol.index))

instance : LawfulEqOrd PredicateSymbol where
  compare_self {p} := Std.ReflOrd.compare_self (a := p.index)
  eq_of_compare same := congrArg PredicateSymbol.mk (LawfulEqOrd.eq_of_compare (α := Nat) same)

/-! ## Terms -/

namespace Term

mutual

/-- Comparing two terms the other way round gives the opposite result. -/
theorem compareTerm_eq_swap : (s t : Term) → compareTerm s t = (compareTerm t s).swap
  | var v, var w => Std.OrientedOrd.eq_swap (a := v) (b := w)
  | var _, app _ _ => rfl
  | app _ _, var _ => rfl
  | app f ss, app g ts => by
      simp only [compareTerm, Ordering.swap_then]
      rw [compareArgs_eq_swap ss ts, Std.OrientedOrd.eq_swap (a := f) (b := g)]

/-- The same for argument lists. -/
theorem compareArgs_eq_swap :
    (ss ts : List Term) → compareArgs ss ts = (compareArgs ts ss).swap
  | [], [] => rfl
  | [], _ :: _ => rfl
  | _ :: _, [] => rfl
  | s :: ss, t :: ts => by
      simp only [compareArgs, Ordering.swap_then]
      rw [compareTerm_eq_swap s t, compareArgs_eq_swap ss ts]

end

mutual

/-- Two terms compare equal exactly when they are equal. -/
theorem compareTerm_eq_iff : (s t : Term) → (compareTerm s t = .eq ↔ s = t)
  | var v, var w => by simp [compareTerm]
  | var _, app _ _ => by simp [compareTerm]
  | app _ _, var _ => by simp [compareTerm]
  | app f ss, app g ts => by
      simp only [compareTerm, Ordering.then_eq_eq, compareArgs_eq_iff ss ts, app.injEq]
      simp

/-- The same for argument lists. -/
theorem compareArgs_eq_iff : (ss ts : List Term) → (compareArgs ss ts = .eq ↔ ss = ts)
  | [], [] => by simp [compareArgs]
  | [], _ :: _ => by simp [compareArgs]
  | _ :: _, [] => by simp [compareArgs]
  | s :: ss, t :: ts => by
      simp only [compareArgs, Ordering.then_eq_eq, compareTerm_eq_iff s t,
        compareArgs_eq_iff ss ts, List.cons.injEq]

end

mutual

/-- The order of terms is transitive. -/
theorem compareTerm_lt_trans :
    (s t u : Term) → compareTerm s t = .lt → compareTerm t u = .lt → compareTerm s u = .lt
  | var u, var v, var w, first, second => by
      simp only [compareTerm] at *
      exact TransCmp.lt_trans first second
  | var _, _, app _ _, _, _ => rfl
  | var _, app _ _, var _, _, second => by simp [compareTerm] at second
  | app _ _, var _, _, first, _ => by simp [compareTerm] at first
  | app _ _, app _ _, var _, _, second => by simp [compareTerm] at second
  | app f ss, app g ts, app h us, first, second => by
      simp only [compareTerm, Ordering.then_eq_lt, Std.LawfulEqOrd.compare_eq_iff_eq] at *
      rcases first with first | ⟨rfl, first⟩
      · rcases second with second | ⟨rfl, _⟩
        · exact .inl (TransCmp.lt_trans first second)
        · exact .inl first
      · rcases second with second | ⟨rfl, second⟩
        · exact .inl second
        · exact .inr ⟨rfl, compareArgs_lt_trans ss ts us first second⟩

/-- The same for argument lists. -/
theorem compareArgs_lt_trans :
    (ss ts us : List Term) → compareArgs ss ts = .lt → compareArgs ts us = .lt →
      compareArgs ss us = .lt
  | [], _, _ :: _, _, _ => rfl
  | [], [], [], first, _ => by simp [compareArgs] at first
  | [], _ :: _, [], _, second => by simp [compareArgs] at second
  | _ :: _, [], _, first, _ => by simp [compareArgs] at first
  | _ :: _, _ :: _, [], _, second => by simp [compareArgs] at second
  | s :: ss, t :: ts, u :: us, first, second => by
      simp only [compareArgs, Ordering.then_eq_lt, compareTerm_eq_iff] at *
      rcases first with first | ⟨rfl, first⟩
      · rcases second with second | ⟨rfl, _⟩
        · exact .inl (compareTerm_lt_trans s t u first second)
        · exact .inl first
      · rcases second with second | ⟨rfl, second⟩
        · exact .inl second
        · exact .inr ⟨rfl, compareArgs_lt_trans ss ts us first second⟩

end

instance : TransOrd Term where
  eq_swap := compareTerm_eq_swap _ _
  isLE_trans {s t u} first second := by
    rcases Ordering.isLE_iff_eq_lt_or_eq_eq.mp first with first | first
    · rcases Ordering.isLE_iff_eq_lt_or_eq_eq.mp second with second | second
      · exact Ordering.isLE_iff_eq_lt_or_eq_eq.mpr
          (.inl (compareTerm_lt_trans s t u first second))
      · rw [(compareTerm_eq_iff t u).mp second] at first
        exact Ordering.isLE_iff_eq_lt_or_eq_eq.mpr (.inl first)
    · rw [(compareTerm_eq_iff s t).mp first]
      exact second

instance : LawfulEqOrd Term where
  compare_self := (compareTerm_eq_iff _ _).mpr rfl
  eq_of_compare := (compareTerm_eq_iff _ _).mp

end Term

/-! ## Atoms and clauses -/

instance : TransOrd Atom :=
  inferInstanceAs (TransCmp (compareLex (compareOn Atom.predicate) (compareOn Atom.args)))

theorem Atom.compare_def (a b : Atom) :
    compare a b = (compare a.predicate b.predicate).then (compare a.args b.args) :=
  rfl

instance : LawfulEqOrd Atom where
  compare_self := by simp
  eq_of_compare {a b} same := by
    cases a
    cases b
    simpa [Atom.compare_def, Ordering.then_eq_eq] using same

instance : TransOrd Clause :=
  inferInstanceAs (TransCmp (compareOn Clause.literals))

instance : LawfulEqOrd Clause where
  compare_self {c} := Std.ReflOrd.compare_self (a := c.literals)
  eq_of_compare same :=
    congrArg Clause.mk (LawfulEqOrd.eq_of_compare (α := List (Literal Atom)) same)

end Entailment.FirstOrder
