import Entailment.Proofs.FirstOrder.ResolventSoundness
import Entailment.Proofs.FirstOrder.Renumbering
import Mathlib.Data.List.Basic
import Mathlib.Data.List.InsertIdx

/-!
# Renumbered clauses

New numbers in the order of the old ones leave the literals of a clause in their
order, and the variables in the order of their first occurrence.  So clauses can be
renumbered before or after they are renamed and resolved, when the canonical
variables are renumbered along with the others.
-/

namespace Entailment.FirstOrder

open Sorted (Embeds)

variable (ρ : Renumbering)
variable {c : Clause}

/-! ## Atoms -/

namespace Atom

/-- An atom over the new numbers. -/
def renumber (ρ : Renumbering) (a : Atom) : Atom :=
  ⟨ρ.onPredicate a.predicate, a.args.map (Term.renumber ρ)⟩

theorem embeds_renumber : Embeds (renumber ρ) := by
  intro a b
  rw [compare_def, compare_def]
  exact congrArg₂ Ordering.then (ρ.embedsPredicates ..) ((Term.embeds_renumber ρ).list ..)

@[simp]
theorem renumber_inj {a b : Atom} : a.renumber ρ = b.renumber ρ ↔ a = b :=
  (embeds_renumber ρ).injective.eq_iff

theorem vars_renumber (a : Atom) : (a.renumber ρ).vars = a.vars.map ρ.onVariable := by
  simp [vars, renumber, List.flatMap_map, List.map_flatMap]

@[simp]
theorem apply_renumber (σ : Substitution) (a : Atom) :
    (a.renumber ρ).apply (σ.renumber ρ) = (a.apply σ).renumber ρ := by
  simp [apply, renumber]

theorem unify_renumber (a b : Atom) :
    (a.renumber ρ).unify (b.renumber ρ) = (a.unify b).map (Substitution.renumber ρ) := by
  simp only [unify, renumber, ne_eq, Renumbering.onPredicate_inj, List.length_map]
  split
  · rfl
  · rw [Equations.zip_renumber]
    exact solve_renumber ρ .empty _

end Atom

/-- A list of literals over the new numbers. -/
abbrev renumberLiterals (ρ : Renumbering) : List (Literal Atom) → List (Literal Atom) :=
  List.map (Literal.map (Atom.renumber ρ))

theorem embeds_renumberLiteral : Embeds (Literal.map (Atom.renumber ρ)) :=
  (Atom.embeds_renumber ρ).literal

theorem eraseDups_map_of_injective {α γ : Type} [BEq α] [LawfulBEq α] [BEq γ] [LawfulBEq γ]
    {f : α → γ} (injective : Function.Injective f) (l : List α) :
    (l.map f).eraseDups = l.eraseDups.map f :=
  eraseDups_map_of_injOn l fun _ _ _ _ same => injective same

/-! ## Clauses -/

namespace Clause

/-- A clause over the new numbers. -/
def renumber (ρ : Renumbering) (c : Clause) : Clause := ⟨renumberLiterals ρ c.literals⟩

theorem embeds_renumber : Embeds (renumber ρ) := fun c d =>
  (embeds_renumberLiteral ρ).list c.literals d.literals

@[simp]
theorem renumber_inj {c d : Clause} : c.renumber ρ = d.renumber ρ ↔ c = d :=
  (embeds_renumber ρ).injective.eq_iff

theorem ofList_renumber (literals : List (Literal Atom)) :
    ofList (renumberLiterals ρ literals) = (ofList literals).renumber ρ :=
  congrArg Clause.mk ((embeds_renumberLiteral ρ).ofList literals)

@[simp]
theorem renumber_empty : Clause.empty.renumber ρ = .empty := rfl

@[simp]
theorem isEmpty_renumber (c : Clause) : (c.renumber ρ).isEmpty = c.isEmpty := by
  simp [isEmpty, renumber]

@[simp]
theorem isOn_renumber (p : PredicateSymbol) (sign : Sign) (literal : Literal Atom) :
    isOn (ρ.onPredicate p) sign (literal.map (Atom.renumber ρ)) = isOn p sign literal :=
  congrArg (· && decide (literal.sign = sign)) (decide_eq_decide.mpr ρ.onPredicate_inj)

@[simp]
theorem mentions_renumber (p : PredicateSymbol) (c : Clause) :
    (c.renumber ρ).mentions (ρ.onPredicate p) = c.mentions p := by
  simp [mentions, renumber, Literal.map, Atom.renumber, Function.comp_def]

@[simp]
theorem hasLiteralOn_renumber (p : PredicateSymbol) (sign : Sign) (c : Clause) :
    (c.renumber ρ).hasLiteralOn (ρ.onPredicate p) sign = c.hasLiteralOn p sign := by
  simp [hasLiteralOn, renumber, Function.comp_def]

theorem predicates_renumber (c : Clause) :
    (c.renumber ρ).predicates = c.predicates.map ρ.onPredicate := by
  rw [predicates, predicates, ← eraseDups_map_of_injective ρ.embedsPredicates.injective]
  simp [renumber, Literal.map, Atom.renumber, Function.comp_def]

theorem vars_renumber (c : Clause) : (c.renumber ρ).vars = c.vars.map ρ.onVariable := by
  rw [vars, vars, ← eraseDups_map_of_injective ρ.embedsVariables.injective]
  simp [renumber, Literal.map, Atom.vars_renumber, List.flatMap_map, List.map_flatMap]

theorem isComplementOf_renumber (left right : Literal Atom) :
    (left.map (Atom.renumber ρ)).isComplementOf (right.map (Atom.renumber ρ)) =
      left.isComplementOf right :=
  congrArg (decide (left.sign ≠ right.sign) && ·) (decide_eq_decide.mpr (Atom.renumber_inj ρ))

theorem hasComplement_renumber (literals : List (Literal Atom)) :
    hasComplement (renumberLiterals ρ literals) = hasComplement literals := by
  induction literals with
  | nil => rfl
  | cons literal rest ih =>
      rw [renumberLiterals, List.map_cons, hasComplement, ih, hasComplement, List.any_map]
      simp only [Function.comp_def, isComplementOf_renumber]

@[simp]
theorem isTautology_renumber (c : Clause) : (c.renumber ρ).isTautology = c.isTautology :=
  hasComplement_renumber ρ c.literals

theorem without_renumber (place : Nat) (c : Clause) :
    (c.renumber ρ).without place = renumberLiterals ρ (c.without place) :=
  List.eraseIdx_map ..

theorem literalsOn_renumber (p : PredicateSymbol) (sign : Sign) (c : Clause) :
    (c.renumber ρ).literalsOn (ρ.onPredicate p) sign =
      (c.literalsOn p sign).map fun (literal, place) => (literal.map (Atom.renumber ρ), place) := by
  simp [literalsOn, renumber, List.zipIdx_map, List.filter_map, Function.comp_def, Prod.map]

@[simp]
theorem apply_renumber (σ : Substitution) (c : Clause) :
    (c.renumber ρ).apply (σ.renumber ρ) = (c.apply σ).renumber ρ := by
  have sameTest : (σ.renumber ρ).isEmpty = σ.isEmpty := by
    simp [Substitution.isEmpty, Substitution.renumber]
  rw [apply, apply, sameTest]
  split
  · rfl
  · rw [← ofList_renumber]
    simp [renumber, renumberLiterals, Literal.map, Function.comp_def]

end Clause

/-! ## Renaming -/

/-- The canonical variables of two signatures correspond as far as a renaming of some
variables from a number on needs them. -/
def Signature.Matches (ρ : Renumbering) (next count : Nat) (signature renumbered : Signature) :
    Prop :=
  ∀ index < next + count,
    renumbered.canonicalVariable index = ρ.onVariable (signature.canonicalVariable index)

variable {ρ} {signature renumbered : Signature} {next : Nat}

theorem Signature.renaming_renumber {vars : List Variable}
    (isMatch : signature.Matches ρ next vars.length renumbered) :
    renumbered.renaming next (vars.map ρ.onVariable) =
      (signature.renaming next vars).renumber ρ := by
  unfold Signature.renaming
  change List.foldl _ (Substitution.empty.renumber ρ) _ = _
  generalize Substitution.empty = σ
  induction vars generalizing next σ with
  | nil => rfl
  | cons v rest ih =>
      have bound : (if renumbered.canonicalVariable next = ρ.onVariable v then σ.renumber ρ
          else (σ.renumber ρ).insert (ρ.onVariable v) (.var (renumbered.canonicalVariable next))) =
          (if signature.canonicalVariable next = v then σ
            else σ.insert v (.var (signature.canonicalVariable next))).renumber ρ := by
        simp only [isMatch next (by simp), Renumbering.onVariable_inj]
        split
        · rfl
        · exact Substitution.insert_renumber ρ v (.var _) σ
      have others : signature.Matches ρ (next + 1) rest.length renumbered := fun index less =>
        isMatch index (by rw [List.length_cons]; omega)
      rw [List.map_cons, List.zipIdx_cons, List.zipIdx_cons, List.foldl_cons, List.foldl_cons,
        ← ih others]
      exact congrArg (fun start => List.foldl _ start _) bound

/-- Renumbering a clause before or after it is renamed. -/
theorem Clause.renameFrom_renumber (isMatch : signature.Matches ρ next c.vars.length renumbered) :
    (c.renumber ρ).renameFrom renumbered next = (c.renameFrom signature next).renumber ρ := by
  rw [renameFrom, vars_renumber, signature.renaming_renumber isMatch, apply_renumber, renameFrom]

/-- Renumbering a clause in order and renaming it, where the canonical variables get
other new numbers than the variables of the clause. -/
theorem Clause.normalize_renumber {other : Renumbering}
    (increasing : Sorted.IsIncreasing c.literals) (sameFunctions : ρ.onFunction = other.onFunction)
    (samePredicates : ρ.onPredicate = other.onPredicate)
    (isMatch : signature.Matches other 0 c.vars.length renumbered) :
    (c.renumber ρ).normalize renumbered = (c.normalize signature).renumber other := by
  have images (v : Variable) (mem : v ∈ c.vars) :
      (renumbered.renaming 0 (c.renumber ρ).vars).image (ρ.onVariable v) =
        ((signature.renaming 0 c.vars).image v).renumber other := by
    have samePlace : (c.vars.map ρ.onVariable).findIdx? (· = ρ.onVariable v) =
        c.vars.findIdx? (· = v) := by
      simp [List.findIdx?_map, Function.comp_def]
    rw [Signature.image_renaming _ _ (nodup_vars _), Signature.image_renaming _ _ (nodup_vars _),
      vars_renumber, samePlace]
    cases found : c.vars.findIdx? (· = v) with
    | none =>
        have absent := List.findIdx?_eq_none_iff.mp found v mem
        simp at absent
    | some place =>
        have bound := (List.findIdx?_eq_some_iff_getElem.mp found).1
        exact congrArg Term.var (isMatch (0 + place) (by omega))
  have renumberedIncreasing : Sorted.IsIncreasing (c.renumber ρ).literals :=
    List.Pairwise.map _
      (fun left right before => (embeds_renumberLiteral ρ left right).trans before) increasing
  rw [normalize, normalize, renameFrom, renameFrom, apply_eq_ofList increasing,
    apply_eq_ofList renumberedIncreasing, ← ofList_renumber]
  refine congrArg ofList ?_
  rw [renumber, renumberLiterals, renumberLiterals, List.map_map, List.map_map]
  refine List.map_congr_left fun literal literalMem => ?_
  refine congrArg (Literal.mk · literal.sign) ?_
  simp only [Literal.map, Atom.apply, Atom.renumber, samePredicates, List.map_map, Atom.mk.injEq,
    true_and]
  refine List.map_congr_left fun t tMem => ?_
  rw [Function.comp_apply, Function.comp_apply, Substitution.apply_eq_replace,
    Substitution.apply_eq_replace]
  exact Term.replace_renumber sameFunctions fun v vMem =>
    images v (mem_vars.mpr ⟨literal, literalMem, t, tMem, vMem⟩)

/-! ## Canonical variables that may still have to be created -/

namespace Signature

/-- The canonical variable of a number, which is the one that will be created if
there is none. -/
def canonicalAt (signature : Signature) (index : Nat) : Variable :=
  if index < signature.canonical.size then signature.canonicalVariable index
  else ⟨signature.vars.size + (index - signature.canonical.size)⟩

theorem canonicalAt_of_lt {index : Nat} (bound : index < signature.canonical.size) :
    signature.canonicalAt index = signature.canonicalVariable index :=
  if_pos bound

/-- Creating canonical variables changes none of them. -/
theorem canonicalAt_addCanonical (count : Nat) (signature : Signature) (index : Nat) :
    (signature.addCanonical count).canonicalAt index = signature.canonicalAt index := by
  induction count generalizing signature with
  | zero => rfl
  | succ count ih =>
      rw [addCanonical, ih]
      simp only [addVariable, canonicalAt, canonicalVariable, Array.size_push]
      rcases Nat.lt_trichotomy index signature.canonical.size with less | rfl | greater
      · rw [if_pos (by omega), if_pos less, Array.getElem?_push, if_neg (by omega)]
      · simp
      · rw [if_neg (by omega), if_neg (by omega)]
        congr 1
        omega

theorem canonicalAt_reserveCanonical (count : Nat) (signature : Signature) (index : Nat) :
    (signature.reserveCanonical count).canonicalAt index = signature.canonicalAt index :=
  canonicalAt_addCanonical ..

/-- The canonical variables of a signature are those of another one, renumbered. -/
def Follows (ρ : Renumbering) (signature renumbered : Signature) : Prop :=
  ∀ index, renumbered.canonicalAt index = ρ.onVariable (signature.canonicalAt index)

namespace Follows

variable (follows : signature.Follows ρ renumbered)

include follows

theorem reserveCanonical (count : Nat) :
    (signature.reserveCanonical count).Follows ρ (renumbered.reserveCanonical count) := by
  intro index
  rw [canonicalAt_reserveCanonical, canonicalAt_reserveCanonical, follows]

theorem matches_of_le {count : Nat} (enough : next + count ≤ signature.canonical.size)
    (renumberedEnough : next + count ≤ renumbered.canonical.size) :
    signature.Matches ρ next count renumbered := by
  intro index bound
  rw [← canonicalAt_of_lt (by omega), ← canonicalAt_of_lt (by omega), follows]

/-- Renumbering a clause before or after it is renamed from a number on. -/
theorem standardizeApart (next : Nat) (c : Clause) :
    ((c.renumber ρ).standardizeApart next renumbered).1 =
        (c.standardizeApart next signature).1.renumber ρ ∧
      (c.standardizeApart next signature).2.2.Follows ρ
        ((c.renumber ρ).standardizeApart next renumbered).2.2 := by
  have count : (c.renumber ρ).vars.length = c.vars.length := by
    rw [Clause.vars_renumber, List.length_map]
  simp only [Clause.standardizeApart, count]
  have reserved := follows.reserveCanonical (next + c.vars.length)
  refine ⟨Clause.renameFrom_renumber (reserved.matches_of_le ?_ ?_), reserved⟩
  · exact (signature.reserveCanonical_spec _).2
  · exact (renumbered.reserveCanonical_spec _).2

/-- Renumbering two clauses before or after they are renamed apart. -/
theorem renameApart (c d : Clause) :
    ((c.renumber ρ).renameApart (d.renumber ρ) renumbered).1 =
        (c.renameApart d signature).1.renumber ρ ∧
      ((c.renumber ρ).renameApart (d.renumber ρ) renumbered).2.1 =
        (c.renameApart d signature).2.1.renumber ρ ∧
      (c.renameApart d signature).2.2.Follows ρ
        ((c.renumber ρ).renameApart (d.renumber ρ) renumbered).2.2 := by
  obtain ⟨left, afterLeft⟩ := follows.standardizeApart 0 c
  have count : ((c.renumber ρ).standardizeApart 0 renumbered).2.1 =
      (c.standardizeApart 0 signature).2.1 := by
    simp only [Clause.standardizeApart, Clause.vars_renumber, List.length_map]
  obtain ⟨right, afterRight⟩ := afterLeft.standardizeApart (c.standardizeApart 0 signature).2.1 d
  simp only [Clause.renameApart, count]
  exact ⟨left, right, afterRight⟩

end Follows

end Signature

/-! ## Resolvents -/

/-- An attempt over the new numbers. -/
def Attempt.renumber (ρ : Renumbering) (attempt : Attempt) : Attempt where
  positive := attempt.positive.renumber ρ
  negative := attempt.negative.renumber ρ
  rest := renumberLiterals ρ attempt.rest
  unifier := attempt.unifier.map (Substitution.renumber ρ)

theorem Attempt.resolvent?_renumber (attempt : Attempt) :
    (attempt.renumber ρ).resolvent? = attempt.resolvent?.map (Clause.renumber ρ) := by
  simp only [resolvent?, renumber, Option.map_map, Clause.ofList_renumber]
  congr 1
  funext σ
  exact Clause.apply_renumber ρ σ _

theorem Clause.attempts_renumber (p : PredicateSymbol) (c d : Clause) :
    (c.renumber ρ).attempts (ρ.onPredicate p) (d.renumber ρ) =
      (c.attempts p d).map (Attempt.renumber ρ) := by
  simp only [attempts, literalsOn_renumber, List.flatMap_map, List.map_flatMap, List.map_map]
  refine congrArg (List.flatMap · _) (funext fun positive => ?_)
  refine List.map_congr_left fun negative _ => ?_
  simp [Attempt.renumber, Literal.map, without_renumber, Atom.unify_renumber]

/-- The variables of a clause that was renamed are canonical ones in the range of the
renaming. -/
theorem Clause.mem_vars_of_standardizeApart {x : Variable}
    (mem : x ∈ (c.standardizeApart next signature).1.vars) :
    ∃ index < next + c.vars.length, x = signature.canonicalAt index := by
  obtain ⟨index, -, bound, rfl⟩ := exists_of_mem_vars_renameFrom mem
  have enough := (signature.reserveCanonical_spec (next + c.vars.length)).2
  refine ⟨index, bound, ?_⟩
  rw [← Signature.canonicalAt_of_lt (Nat.lt_of_lt_of_le bound enough),
    Signature.canonicalAt_reserveCanonical]

/-- A resolvent of two clauses has no more variables than both of them together. -/
theorem Attempt.length_vars_le {p : PredicateSymbol} {d r : Clause} {attempt : Attempt}
    (mem : attempt ∈ (c.renameApart d signature).1.attempts p (c.renameApart d signature).2.1)
    (resolved : attempt.resolvent? = some r) : r.vars.length ≤ c.vars.length + d.vars.length := by
  have canonical : ∀ x ∈ r.vars,
      x ∈ (List.range (c.vars.length + d.vars.length)).map signature.canonicalAt := by
    intro x xMem
    rcases Attempt.mem_vars_of_resolvent mem resolved xMem with inLeft | inRight
    · obtain ⟨index, bound, rfl⟩ := Clause.mem_vars_of_standardizeApart inLeft
      exact List.mem_map_of_mem (List.mem_range.mpr (by omega))
    · obtain ⟨index, bound, rfl⟩ := Clause.mem_vars_of_standardizeApart inRight
      rw [Signature.canonicalAt_reserveCanonical]
      exact List.mem_map_of_mem (List.mem_range.mpr (by omega))
  simpa using r.nodup_vars.length_le_of_subset canonical

theorem Clause.canonicalSize_renameApart (c d : Clause) (signature : Signature) :
    c.vars.length + d.vars.length ≤ (c.renameApart d signature).2.2.canonical.size := by
  have enough : 0 + c.vars.length + d.vars.length ≤
      (c.renameApart d signature).2.2.canonical.size :=
    (Signature.reserveCanonical_spec ..).2
  omega

/-- Renumbering two clauses before or after they are resolved. -/
theorem Signature.Follows.resolvents (follows : signature.Follows ρ renumbered)
    (p : PredicateSymbol) (c d : Clause) :
    let apart := c.renameApart d signature
    let renumberedApart := (c.renumber ρ).renameApart (d.renumber ρ) renumbered
    Attempt.resolvents renumberedApart.2.2
        (renumberedApart.1.attempts (ρ.onPredicate p) renumberedApart.2.1) =
      (Attempt.resolvents apart.2.2 (apart.1.attempts p apart.2.1)).map (Clause.renumber ρ) := by
  intro apart renumberedApart
  obtain ⟨left, right, after⟩ := follows.renameApart c d
  have size := Clause.canonicalSize_renameApart c d signature
  have renumberedSize := Clause.canonicalSize_renameApart (c.renumber ρ) (d.renumber ρ) renumbered
  simp only [Clause.vars_renumber, List.length_map] at renumberedSize
  simp only [renumberedApart, apart, left, right, Clause.attempts_renumber, Attempt.resolvents,
    List.filterMap_map, List.map_filterMap]
  refine List.filterMap_congr fun attempt mem => ?_
  rw [Function.comp_apply, Attempt.resolvent?_renumber]
  cases resolved : attempt.resolvent? with
  | none => rfl
  | some r =>
      have few := Attempt.length_vars_le mem resolved
      exact congrArg some (Clause.renameFrom_renumber (after.matches_of_le (by omega) (by omega)))

end Entailment.FirstOrder
