import Entailment.Order.Sorted

/-!
# Facts about sorted lists

Over a lawful comparison the functions on sorted lists do what sets do: they
have the expected elements, their results are strictly increasing, and a
strictly increasing list is determined by its elements.
-/

namespace Entailment.Sorted

open Std (TransOrd LawfulEqOrd)

variable {α : Type} [Ord α] {a b : α} {elements left right : List α}

/-- Every element comes before all later ones. -/
def IsIncreasing (elements : List α) : Prop :=
  elements.Pairwise fun a b => compare a b = .lt

/-! ## Elements -/

theorem mem_dropRepeats [LawfulEqOrd α] : a ∈ dropRepeats elements ↔ a ∈ elements := by
  fun_induction dropRepeats elements with
  | case1 => rfl
  | case2 => rfl
  | case3 b c rest same ih =>
      rw [ih, LawfulEqOrd.eq_of_compare same]
      simp
  | case4 b c rest different ih => rw [List.mem_cons, List.mem_cons, ih]

/-- A sorted list has the elements of the list it is made from. -/
@[simp]
theorem mem_ofList [LawfulEqOrd α] : a ∈ ofList elements ↔ a ∈ elements := by
  rw [ofList, mem_dropRepeats, List.mem_mergeSort]

@[simp]
theorem mem_union [LawfulEqOrd α] : a ∈ union left right ↔ a ∈ left ∨ a ∈ right := by
  rw [union, mem_ofList, List.mem_append]

@[simp]
theorem mem_insert [LawfulEqOrd α] : a ∈ insert b elements ↔ a = b ∨ a ∈ elements := by
  induction elements with
  | nil => simp [insert]
  | cons c rest ih =>
      unfold insert
      split
      · simp
      · rename_i same
        rw [LawfulEqOrd.eq_of_compare same]
        simp
      · rw [List.mem_cons, ih, List.mem_cons]
        exact or_left_comm

@[simp]
theorem contains_iff [LawfulEqOrd α] : contains elements a = true ↔ a ∈ elements := by
  simp [contains]

/-! ## Order -/

theorem le_trans [TransOrd α] (a b c : α) (first : le a b = true) (second : le b c = true) :
    le a c = true :=
  TransOrd.isLE_trans first second

theorem le_total [TransOrd α] (a b : α) : (le a b || le b a) = true := by
  simp only [le]
  rw [Std.OrientedOrd.eq_swap (a := b) (b := a)]
  cases compare a b <;> rfl

/-- Keeping one of equal neighbours makes a sorted list strictly increasing. -/
theorem isIncreasing_dropRepeats [TransOrd α] [LawfulEqOrd α]
    (sorted : elements.Pairwise fun a b => le a b = true) :
    IsIncreasing (dropRepeats elements) := by
  fun_induction dropRepeats elements with
  | case1 => exact .nil
  | case2 => exact List.pairwise_singleton ..
  | case3 b c rest same ih => exact ih sorted.of_cons
  | case4 b c rest different ih =>
      have below := List.pairwise_cons.mp sorted
      refine List.pairwise_cons.mpr ⟨fun a mem => ?_, ih below.2⟩
      have first : compare b c = .lt := by
        rcases Ordering.isLE_iff_eq_lt_or_eq_eq.mp (below.1 c (List.mem_cons_self ..)) with h | h
        · exact h
        · exact absurd h different
      rcases List.mem_cons.mp (mem_dropRepeats.mp mem) with rfl | mem
      · exact first
      · exact Std.TransCmp.lt_of_lt_of_isLE first ((List.pairwise_cons.mp below.2).1 a mem)

/-- The elements of a list, in strictly increasing order. -/
theorem isIncreasing_ofList [TransOrd α] [LawfulEqOrd α] (elements : List α) :
    IsIncreasing (ofList elements) :=
  isIncreasing_dropRepeats (List.pairwise_mergeSort le_trans le_total elements)

theorem isIncreasing_insert [TransOrd α] [LawfulEqOrd α] (a : α)
    (increasing : IsIncreasing elements) : IsIncreasing (insert a elements) := by
  induction elements with
  | nil => exact List.pairwise_singleton ..
  | cons b rest ih =>
      have below := List.pairwise_cons.mp increasing
      unfold insert
      split
      · rename_i before
        refine List.pairwise_cons.mpr ⟨fun c mem => ?_, increasing⟩
        rcases List.mem_cons.mp mem with rfl | mem
        · exact before
        · exact Std.TransCmp.lt_trans before (below.1 c mem)
      · exact increasing
      · rename_i after
        refine List.pairwise_cons.mpr ⟨fun c mem => ?_, ih below.2⟩
        rcases mem_insert.mp mem with rfl | mem
        · exact Std.OrientedCmp.lt_of_gt after
        · exact below.1 c mem

/-- Nothing occurs twice in a strictly increasing list. -/
theorem IsIncreasing.nodup [TransOrd α] (increasing : IsIncreasing elements) : elements.Nodup :=
  List.Pairwise.imp
    (fun {a b} before same => by
      subst same
      simp at before)
    increasing

/-- Strictly increasing lists with the same elements are equal. -/
theorem IsIncreasing.eq_of_mem_iff [TransOrd α] (leftIncreasing : IsIncreasing left)
    (rightIncreasing : IsIncreasing right) (same : ∀ a, a ∈ left ↔ a ∈ right) : left = right := by
  induction left generalizing right with
  | nil =>
      cases right with
      | nil => rfl
      | cons b rest => exact absurd ((same b).mpr (List.mem_cons_self ..)) List.not_mem_nil
  | cons a rest ih =>
      cases right with
      | nil => exact absurd ((same a).mp (List.mem_cons_self ..)) List.not_mem_nil
      | cons b others =>
          have belowLeft := List.pairwise_cons.mp leftIncreasing
          have belowRight := List.pairwise_cons.mp rightIncreasing
          have heads : a = b := by
            rcases List.mem_cons.mp ((same a).mp (List.mem_cons_self ..)) with h | aLater
            · exact h
            · rcases List.mem_cons.mp ((same b).mpr (List.mem_cons_self ..)) with h | bLater
              · exact h.symm
              · have := Std.TransCmp.lt_trans (belowLeft.1 b bLater) (belowRight.1 a aLater)
                simp at this
          subst heads
          congr 1
          refine ih belowLeft.2 belowRight.2 fun c => ⟨fun mem => ?_, fun mem => ?_⟩
          · rcases List.mem_cons.mp ((same c).mp (List.mem_cons_of_mem _ mem)) with rfl | later
            · have := belowLeft.1 c mem
              simp at this
            · exact later
          · rcases List.mem_cons.mp ((same c).mpr (List.mem_cons_of_mem _ mem)) with rfl | later
            · have := belowRight.1 c mem
              simp at this
            · exact later

/-- Lists with the same elements make the same sorted list. -/
theorem ofList_eq_of_mem_iff [TransOrd α] [LawfulEqOrd α] (same : ∀ a, a ∈ left ↔ a ∈ right) :
    ofList left = ofList right :=
  (isIncreasing_ofList left).eq_of_mem_iff (isIncreasing_ofList right) (by simpa using same)

/-- A list that is in order already is kept. -/
theorem IsIncreasing.ofList_eq [TransOrd α] [LawfulEqOrd α] (increasing : IsIncreasing elements) :
    ofList elements = elements :=
  (isIncreasing_ofList elements).eq_of_mem_iff increasing fun _ => mem_ofList

theorem ofList_singleton (a : α) : ofList [a] = [a] := by
  simp [ofList, dropRepeats]

theorem ofList_pair [TransOrd α] [LawfulEqOrd α] (before : compare a b = .lt) :
    ofList [a, b] = [a, b] :=
  IsIncreasing.ofList_eq (List.pairwise_pair.mpr before)

end Entailment.Sorted
