/-!
# The different elements of a list

`List.eraseDups` keeps the first occurrence of every element.  What it keeps has no
repetitions, there is less of it in a list with fewer elements, and renaming
elements apart renames it.
-/

namespace Entailment

variable {α γ : Type} [BEq α] [LawfulBEq α] {l m before : List α} {a : α}

/-- A list without its repeated elements has no repeated elements. -/
theorem nodup_eraseDups (l : List α) : l.eraseDups.Nodup := by
  match l with
  | [] => simp
  | a :: rest =>
      rw [List.eraseDups_cons, List.nodup_cons]
      refine ⟨?_, nodup_eraseDups _⟩
      simp [List.mem_eraseDups]
termination_by l.length
decreasing_by
  exact Nat.lt_succ_of_le (List.length_filter_le _ _)

/-- Fewer elements give fewer different elements. -/
theorem length_eraseDups_le (subset : ∀ a ∈ l, a ∈ m) :
    l.eraseDups.length ≤ m.eraseDups.length :=
  (nodup_eraseDups l).length_le_of_subset fun a mem =>
    List.mem_eraseDups.mpr (subset a (List.mem_eraseDups.mp mem))

/-- Losing an element gives strictly fewer different elements. -/
theorem length_eraseDups_lt {lost : α} (subset : ∀ a ∈ l, a ∈ m ∧ a ≠ lost)
    (member : lost ∈ m) : l.eraseDups.length < m.eraseDups.length := by
  have lostMem : lost ∈ m.eraseDups := List.mem_eraseDups.mpr member
  have le : l.eraseDups.length ≤ (m.eraseDups.erase lost).length :=
    (nodup_eraseDups l).length_le_of_subset fun a mem => by
      have := subset a (List.mem_eraseDups.mp mem)
      exact (List.mem_erase_of_ne this.2).mpr (List.mem_eraseDups.mpr this.1)
  rw [List.length_erase_of_mem lostMem] at le
  have pos : 0 < m.eraseDups.length := List.length_pos_of_mem lostMem
  omega

/-- An element that has not come yet is kept. -/
theorem eraseDups_append_cons (absent : a ∉ before) (after : List α) :
    ∃ rest, (before ++ a :: after).eraseDups = before.eraseDups ++ a :: rest := by
  have kept : (!List.elem a before) = true := by simpa using absent
  rw [List.eraseDups_append, List.removeAll, List.filter_cons, if_pos kept, List.eraseDups_cons]
  exact ⟨_, rfl⟩

/-- Different elements stay different, so the same repetitions are left out. -/
theorem eraseDups_map_of_injOn [BEq γ] [LawfulBEq γ] {f : α → γ} (l : List α)
    (injOn : ∀ a ∈ l, ∀ b ∈ l, f a = f b → a = b) :
    (l.map f).eraseDups = l.eraseDups.map f := by
  match l with
  | [] => rfl
  | a :: rest =>
      have sameTest : rest.filter ((fun b => !b == f a) ∘ f) = rest.filter fun b => !b == a := by
        refine List.filter_congr fun b mem => ?_
        have equal_iff : f b = f a ↔ b = a :=
          ⟨injOn b (List.mem_cons_of_mem _ mem) a (List.mem_cons_self ..), congrArg f⟩
        rw [Bool.eq_iff_iff]
        simp [equal_iff]
      have restInjOn : ∀ b ∈ rest.filter fun b => !b == a, ∀ c ∈ rest.filter fun b => !b == a,
          f b = f c → b = c := fun b bMem c cMem =>
        injOn b (List.mem_cons_of_mem _ (List.mem_filter.mp bMem).1) c
          (List.mem_cons_of_mem _ (List.mem_filter.mp cMem).1)
      rw [List.map_cons, List.eraseDups_cons, List.eraseDups_cons, List.map_cons, List.filter_map,
        sameTest, eraseDups_map_of_injOn _ restInjOn]
termination_by l.length
decreasing_by
  exact Nat.lt_succ_of_le (List.length_filter_le _ _)

end Entailment
