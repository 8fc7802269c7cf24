import Entailment.Proofs.FirstOrder.Extension

/-!
# What renaming does to the variables of a clause

Renaming a clause from a number on maps its variables, in the order of their
first occurrence, to the canonical variables from that number on.  Bindings of a
variable to itself are left out, which changes no image.  Canonical variables
are created before they are used, so a renamed clause is over the extended
signature.  In a proper signature the canonical variables are different, so
different variables stay different.
-/

namespace Entailment.FirstOrder

universe u

namespace Signature

variable {vars : List Variable}

/-- Renaming onto the canonical variables after those of `σ`. -/
theorem image_renaming_foldl (signature : Signature) (vars : List Variable) (next : Nat)
    (σ : Substitution) (nodup : vars.Nodup) (unbound : ∀ v ∈ vars, σ.image v = .var v)
    (w : Variable) :
    ((vars.zipIdx next).foldl
      (fun σ (v, index) =>
        let target := signature.canonicalVariable index
        if target = v then σ else σ.insert v (.var target)) σ).image w =
      match vars.findIdx? (· = w) with
      | some place => .var (signature.canonicalVariable (next + place))
      | none => σ.image w := by
  induction vars generalizing next σ with
  | nil => rfl
  | cons v rest ih =>
      obtain ⟨absent, restNodup⟩ := List.nodup_cons.mp nodup
      simp only [List.zipIdx_cons, List.foldl_cons, List.findIdx?_cons]
      have first : (if signature.canonicalVariable next = v then σ
          else σ.insert v (.var (signature.canonicalVariable next))).image v =
          .var (signature.canonicalVariable next) := by
        split
        · rename_i same
          rw [unbound v (List.mem_cons_self ..), same]
        · exact Substitution.image_insert_self ..
      have others (x : Variable) (different : v ≠ x) :
          (if signature.canonicalVariable next = v then σ
            else σ.insert v (.var (signature.canonicalVariable next))).image x = σ.image x := by
        split
        · rfl
        · exact Substitution.image_insert_of_ne different ..
      rw [ih (next + 1) _ restNodup fun x mem => by
        rw [others x fun same => absent (same ▸ mem), unbound x (List.mem_cons_of_mem _ mem)]]
      by_cases same : v = w
      · subst same
        have notLater : rest.findIdx? (· = v) = none := by
          simpa using fun x mem (equal : x = v) => absent (equal ▸ mem)
        simp [notLater, first]
      · simp only [same, decide_false, Bool.false_eq_true, if_false]
        cases rest.findIdx? (· = w) with
        | none => simp [others w same]
        | some place =>
            simp only [Option.map_some]
            congr 2
            omega

/-- The image of a variable under a renaming: the variable at a place goes to
the canonical variable that many numbers after the first, and no other variable
moves. -/
theorem image_renaming (signature : Signature) (next : Nat) (nodup : vars.Nodup) (w : Variable) :
    (signature.renaming next vars).image w =
      match vars.findIdx? (· = w) with
      | some place => .var (signature.canonicalVariable (next + place))
      | none => .var w :=
  image_renaming_foldl signature vars next .empty nodup (fun _ _ => rfl) w

/-- A variable at a place goes to the canonical variable of that place. -/
theorem exists_place_of_mem (signature : Signature) (next : Nat) (nodup : vars.Nodup) {w : Variable}
    (mem : w ∈ vars) :
    ∃ place, ∃ bound : place < vars.length, vars[place] = w ∧
      (signature.renaming next vars).image w =
        .var (signature.canonicalVariable (next + place)) := by
  rw [image_renaming signature next nodup w]
  cases found : vars.findIdx? (· = w) with
  | none =>
      have different := List.findIdx?_eq_none_iff.mp found w mem
      simp at different
  | some place =>
      obtain ⟨bound, isIt, -⟩ := List.findIdx?_eq_some_iff_getElem.mp found
      exact ⟨place, bound, by simpa using isIt, rfl⟩

namespace IsProper

variable {signature : Signature}

/-- Canonical variables of greater numbers were created later. -/
theorem canonicalVariable_lt (proper : signature.IsProper) {first second : Nat}
    (less : first < second) (bound : second < signature.canonical.size) :
    (signature.canonicalVariable first).index < (signature.canonicalVariable second).index := by
  have firstBound : first < signature.canonical.size := Nat.lt_trans less bound
  simp only [canonicalVariable, Array.getElem?_eq_getElem, firstBound, bound, Option.getD_some]
  exact List.pairwise_iff_getElem.mp proper.increasingCanonical first second firstBound bound less

/-- Canonical variables of different numbers are different. -/
theorem canonicalVariable_inj (proper : signature.IsProper) {first second : Nat}
    (firstBound : first < signature.canonical.size)
    (secondBound : second < signature.canonical.size)
    (same : signature.canonicalVariable first = signature.canonicalVariable second) :
    first = second := by
  rcases Nat.lt_trichotomy first second with less | equal | greater
  · exact absurd (congrArg Variable.index same)
      (Nat.ne_of_lt (proper.canonicalVariable_lt less secondBound))
  · exact equal
  · exact absurd (congrArg Variable.index same)
      (Nat.ne_of_gt (proper.canonicalVariable_lt greater firstBound))

/-- A renaming maps different variables to different variables. -/
theorem image_renaming_inj (proper : signature.IsProper) {next : Nat} (nodup : vars.Nodup)
    (enough : next + vars.length ≤ signature.canonical.size) {v w : Variable} (vMem : v ∈ vars)
    (wMem : w ∈ vars)
    (same : (signature.renaming next vars).image v = (signature.renaming next vars).image w) :
    v = w := by
  obtain ⟨first, firstBound, rfl, firstImage⟩ := signature.exists_place_of_mem next nodup vMem
  obtain ⟨second, secondBound, rfl, secondImage⟩ := signature.exists_place_of_mem next nodup wMem
  rw [firstImage, secondImage] at same
  have equal := proper.canonicalVariable_inj (by omega) (by omega) (Term.var.inj same)
  have places : first = second := by omega
  subst places
  rfl

/-- Every assignment of values to some variables can be carried over to the
variables they are renamed to. -/
theorem exists_carried (proper : signature.IsProper) {next : Nat} (nodup : vars.Nodup)
    (enough : next + vars.length ≤ signature.canonical.size) {α : Type u} (ρ : Variable → α) :
    ∃ ρ' : Variable → α, ∀ v ∈ vars, ∀ x,
      (signature.renaming next vars).image v = .var x → ρ' x = ρ v := by
  refine ⟨fun x => ρ ((vars.find? fun w =>
    (signature.renaming next vars).image w = .var x).getD x), ?_⟩
  intro v mem x image
  cases found : vars.find? fun w => (signature.renaming next vars).image w = .var x with
  | none => simpa [image] using List.find?_eq_none.mp found v mem
  | some w =>
      have wImage : (signature.renaming next vars).image w = .var x := by
        simpa using List.find?_some found
      have same := proper.image_renaming_inj nodup enough (List.mem_of_find?_eq_some found) mem
        (wImage.trans image.symm)
      simp only [found, same, Option.getD_some]

end IsProper

end Signature

/-- A substitution that puts variables in. -/
def Substitution.IsRenaming (σ : Substitution) : Prop :=
  ∀ v, ∃ w, σ.image v = .var w

theorem Signature.isRenaming_renaming (signature : Signature) (next : Nat) {vars : List Variable}
    (nodup : vars.Nodup) : (signature.renaming next vars).IsRenaming := by
  intro v
  rw [signature.image_renaming next nodup v]
  split
  · exact ⟨_, rfl⟩
  · exact ⟨v, rfl⟩

namespace Clause

variable {c : Clause}

theorem nodup_vars (c : Clause) : c.vars.Nodup := nodup_eraseDups _

theorem mem_vars {v : Variable} :
    v ∈ c.vars ↔ ∃ literal ∈ c.literals, ∃ t ∈ literal.atom.args, v ∈ t.vars := by
  simp [vars, Atom.vars, List.mem_eraseDups]

/-- The variables of an instance are those of the terms that are put in. -/
theorem exists_of_mem_vars_apply {σ : Substitution} {x : Variable} (mem : x ∈ (c.apply σ).vars) :
    ∃ v ∈ c.vars, x ∈ (σ.image v).vars := by
  obtain ⟨literal, literalMem, t, tMem, xMem⟩ := mem_vars.mp mem
  obtain ⟨original, originalMem, rfl⟩ := mem_literals_apply.mp literalMem
  obtain ⟨s, sMem, rfl⟩ := List.mem_map.mp tMem
  rw [Substitution.apply_eq_replace] at xMem
  obtain ⟨v, vMem, xMem⟩ := Term.mem_vars_replace xMem
  exact ⟨v, mem_vars.mpr ⟨original, originalMem, s, sMem, vMem⟩, xMem⟩

/-- The variables of a renamed clause are canonical variables of numbers in the
range of the renaming. -/
theorem exists_of_mem_vars_renameFrom {signature : Signature} {next : Nat} {x : Variable}
    (mem : x ∈ (c.renameFrom signature next).vars) :
    ∃ index, next ≤ index ∧ index < next + c.vars.length ∧
      x = signature.canonicalVariable index := by
  obtain ⟨v, vMem, xMem⟩ := exists_of_mem_vars_apply mem
  obtain ⟨place, bound, -, image⟩ := signature.exists_place_of_mem next c.nodup_vars vMem
  rw [image, Term.vars_var, List.mem_singleton] at xMem
  exact ⟨next + place, Nat.le_add_right .., Nat.add_lt_add_left bound next, xMem⟩

variable {signature extended : Signature}

/-- A renamed clause is over the signature if the canonical variables it needs
exist. -/
theorem IsOver.renameFrom (isOver : c.IsOver signature) (has : signature.HasCanonical) {next : Nat}
    (enough : next + c.vars.length ≤ signature.canonical.size) :
    (c.renameFrom signature next).IsOver signature := by
  refine isOver.apply fun w bound => ?_
  rw [signature.image_renaming next c.nodup_vars w]
  cases found : c.vars.findIdx? (· = w) with
  | none => exact .var bound
  | some place =>
      have placeBound := (List.findIdx?_eq_some_iff_getElem.mp found).1
      exact .var (has.canonicalVariable_lt (by omega))

/-- A clause that is another one with its variables renamed. -/
def IsVariantOf (renamed c : Clause) : Prop :=
  ∃ σ : Substitution, σ.IsRenaming ∧ renamed = c.apply σ

theorem isVariantOf_renameFrom (signature : Signature) (next : Nat) (c : Clause) :
    (c.renameFrom signature next).IsVariantOf c :=
  ⟨_, signature.isRenaming_renaming next c.nodup_vars, rfl⟩

/-- What renaming a clause from a number on gives. -/
theorem standardizeApart_spec (next : Nat) (isOver : c.IsOver signature)
    (has : signature.HasCanonical) :
    let (renamed, last, extended) := c.standardizeApart next signature
    signature.GainsVariables extended ∧ renamed.IsOver extended ∧
      last ≤ extended.canonical.size ∧
      ∀ x ∈ renamed.vars, ∃ index < last, x = extended.canonicalVariable index := by
  obtain ⟨gains, enough⟩ := signature.reserveCanonical_spec (next + c.vars.length)
  exact ⟨gains, (isOver.mono gains.grows).renameFrom (gains.hasCanonical has) enough, enough,
    fun x mem => (exists_of_mem_vars_renameFrom mem).imp fun _ => And.right⟩

/-- What renaming a clause onto the first canonical variables gives. -/
theorem canonical_spec (isOver : c.IsOver signature) (has : signature.HasCanonical) :
    let (renamed, extended) := c.canonical signature
    signature.GainsVariables extended ∧ renamed.IsOver extended := by
  obtain ⟨gains, enough⟩ := signature.reserveCanonical_spec c.vars.length
  exact ⟨gains, (isOver.mono gains.grows).renameFrom (gains.hasCanonical has) (by omega)⟩

/-- What renaming some clauses one after the other gives. -/
theorem canonicalAll_spec {clauses : List Clause} (isOver : ∀ c ∈ clauses, c.IsOver signature)
    (has : signature.HasCanonical) :
    let (renamed, extended) := canonicalAll clauses signature
    signature.GainsVariables extended ∧
      ∀ d ∈ renamed, d.IsOver extended ∧ ∃ c ∈ clauses, d.IsVariantOf c := by
  induction clauses generalizing signature with
  | nil => exact ⟨.refl signature, by simp⟩
  | cons c rest ih =>
      obtain ⟨first, firstOver⟩ := canonical_spec (isOver c (List.mem_cons_self ..)) has
      obtain ⟨gains, restOver⟩ :=
        ih (fun d mem => (isOver d (List.mem_cons_of_mem _ mem)).mono first.grows)
          (first.hasCanonical has)
      refine ⟨first.trans gains, fun d mem => ?_⟩
      rcases List.mem_cons.mp mem with rfl | mem
      · exact ⟨firstOver.mono gains.grows, c, List.mem_cons_self .., isVariantOf_renameFrom ..⟩
      · obtain ⟨dOver, e, eMem, variant⟩ := restOver d mem
        exact ⟨dOver, e, List.mem_cons_of_mem _ eMem, variant⟩

end Clause

end Entailment.FirstOrder
