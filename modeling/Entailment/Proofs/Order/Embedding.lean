import Entailment.Formula.Basic
import Entailment.Order.SortedLemmas

/-!
# Maps that keep an order

Sorting looks at its elements only by comparing them.  So a map under which
elements compare as they did before can be applied before or after sorting.  Lists
and literals over such elements compare as before, too.
-/

namespace Entailment.Sorted

open Std (LawfulEqOrd)

variable {α β : Type} [Ord α] [Ord β]

/-- The images of two elements compare as the elements do. -/
def Embeds (f : α → β) : Prop :=
  ∀ a b, compare (f a) (f b) = compare a b

namespace Embeds

variable {f : α → β}

theorem injective [LawfulEqOrd α] [LawfulEqOrd β] (embeds : Embeds f) : Function.Injective f := by
  intro a b same
  have equal := embeds a b
  rw [same, Std.ReflOrd.compare_self] at equal
  exact LawfulEqOrd.eq_of_compare equal.symm

theorem list (embeds : Embeds f) : Embeds (List.map f) := by
  intro left right
  induction left generalizing right with
  | nil => cases right <;> rfl
  | cons a left ih =>
      cases right with
      | nil => rfl
      | cons b right =>
          simp only [List.map_cons, List.compare_cons_cons, embeds a b, ih right]

theorem literal (embeds : Embeds f) : Embeds (Literal.map f) := by
  intro left right
  simp only [Literal.compare_def, Literal.map, embeds left.atom right.atom]

theorem dropRepeats (embeds : Embeds f) (elements : List α) :
    dropRepeats (elements.map f) = (dropRepeats elements).map f := by
  fun_induction Sorted.dropRepeats elements with
  | case1 => rfl
  | case2 => rfl
  | case3 a b rest same ih =>
      rw [← ih]
      simp only [List.map_cons, Sorted.dropRepeats, embeds a b, same, if_true]
  | case4 a b rest different ih =>
      simp only [List.map_cons] at ih ⊢
      simp only [Sorted.dropRepeats, embeds a b, different, if_false, ih]

theorem ofList (embeds : Embeds f) (elements : List α) :
    ofList (elements.map f) = (ofList elements).map f := by
  rw [Sorted.ofList, Sorted.ofList, ← embeds.dropRepeats]
  congr 1
  refine (List.map_mergeSort fun a _ b _ => ?_).symm
  rw [le, le, embeds a b]

theorem union (embeds : Embeds f) (left right : List α) :
    union (left.map f) (right.map f) = (union left right).map f := by
  rw [Sorted.union, Sorted.union, ← List.map_append, embeds.ofList]

theorem insert (embeds : Embeds f) (a : α) (elements : List α) :
    insert (f a) (elements.map f) = (insert a elements).map f := by
  induction elements with
  | nil => rfl
  | cons b rest ih =>
      simp only [List.map_cons, Sorted.insert, embeds a b]
      cases compare a b with
      | lt => rfl
      | eq => rfl
      | gt => simp only [ih, List.map_cons]

end Embeds

end Entailment.Sorted
