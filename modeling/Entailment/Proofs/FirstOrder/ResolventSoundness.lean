import Entailment.Proofs.FirstOrder.Structure

/-!
# Resolvents follow from their parents

Two clauses are renamed apart, one literal of each is set aside, and the rest is
instantiated by a unifier of the two atoms.  The unifier makes the atoms equal,
so that under every valuation one of the two literals is false and a literal of
the rest is true.

The variables of a resolvent are canonical variables, of which there are enough
to rename it.  So resolvents of clauses over a signature are over the extended
signature.
-/

namespace Entailment.FirstOrder

variable {signature : Signature} {c : Clause}

universe u

namespace Clause

variable {signature : Signature}
variable {c : Clause} {literal : Literal Atom} {place : Nat}

/-- A literal with its place in a list of literals on a predicate. -/
theorem mem_literalsOn {p : PredicateSymbol} {sign : Sign} :
    (literal, place) ∈ c.literalsOn p sign ↔
      c.literals[place]? = some literal ∧ literal.atom.predicate = p ∧ literal.sign = sign := by
  simp [literalsOn, isOn, List.mem_zipIdx_iff_getElem?]

theorem mem_without :
    literal ∈ c.without place ↔ ∃ other, other ≠ place ∧ c.literals[other]? = some literal :=
  List.mem_eraseIdx_iff_getElem?

theorem mem_of_mem_without (mem : literal ∈ c.without place) : literal ∈ c.literals :=
  List.mem_of_mem_eraseIdx mem

/-- A literal of a clause is the one at a place or one of the others. -/
theorem eq_or_mem_without {chosen : Literal Atom} (found : c.literals[place]? = some chosen)
    (mem : literal ∈ c.literals) : literal = chosen ∨ literal ∈ c.without place := by
  obtain ⟨other, otherFound⟩ := List.mem_iff_getElem?.mp mem
  by_cases same : other = place
  · subst same
    exact .inl (Option.some.inj (otherFound.symm.trans found))
  · exact .inr (mem_without.mpr ⟨other, same, otherFound⟩)

/-- What an attempt to resolve two clauses consists of. -/
theorem mem_attempts {p : PredicateSymbol} {d : Clause} {attempt : Attempt} :
    attempt ∈ c.attempts p d ↔
      ∃ a b place otherPlace, c.literals[place]? = some (.positive a) ∧
        d.literals[otherPlace]? = some (.negative b) ∧ a.predicate = p ∧ b.predicate = p ∧
        attempt = ⟨a, b, c.without place ++ d.without otherPlace, a.unify b⟩ := by
  simp only [attempts, List.mem_flatMap, List.mem_map, Prod.exists, mem_literalsOn]
  constructor
  · rintro ⟨⟨a, _⟩, place, ⟨found, onPredicate, rfl⟩, ⟨b, _⟩, otherPlace,
      ⟨otherFound, otherOnPredicate, rfl⟩, rfl⟩
    exact ⟨a, b, place, otherPlace, found, otherFound, onPredicate, otherOnPredicate, rfl⟩
  · rintro ⟨a, b, place, otherPlace, found, otherFound, onPredicate, otherOnPredicate, rfl⟩
    exact ⟨.positive a, place, ⟨found, onPredicate, rfl⟩, .negative b, otherPlace,
      ⟨otherFound, otherOnPredicate, rfl⟩, rfl⟩

end Clause

/-- What two clauses become when they are renamed apart. -/
structure RenamedApart (c d : Clause) (signature : Signature) (left right : Clause)
    (extended : Signature) : Prop where
  gains : signature.GainsVariables extended
  hasCanonical : extended.HasCanonical
  leftOver : left.IsOver extended
  rightOver : right.IsOver extended
  leftVariant : left.IsVariantOf c
  rightVariant : right.IsVariantOf d
  leftVars : ∀ x ∈ left.vars, x ∈ extended.canonical
  rightVars : ∀ x ∈ right.vars, x ∈ extended.canonical

theorem Signature.canonicalVariable_mem {index : Nat} (bound : index < signature.canonical.size) :
    signature.canonicalVariable index ∈ signature.canonical := by
  have found : signature.canonicalVariable index = signature.canonical[index] := by
    simp [canonicalVariable, bound]
  rw [found]
  exact Array.getElem_mem bound

theorem Clause.renameApart_spec {d : Clause} (cOver : c.IsOver signature)
    (dOver : d.IsOver signature) (has : signature.HasCanonical) :
    RenamedApart c d signature (c.renameApart d signature).1 (c.renameApart d signature).2.1
      (c.renameApart d signature).2.2 := by
  obtain ⟨first, leftOver, firstEnough, leftVars⟩ := standardizeApart_spec 0 cOver has
  obtain ⟨second, rightOver, enough, rightVars⟩ :=
    standardizeApart_spec (c.standardizeApart 0 signature).2.1 (dOver.mono first.grows)
      (first.hasCanonical has)
  have gains := first.trans second
  refine ⟨gains, gains.hasCanonical has, leftOver.mono second.grows, rightOver,
    isVariantOf_renameFrom .., isVariantOf_renameFrom .., fun x mem => ?_, fun x mem => ?_⟩
  · obtain ⟨index, bound, rfl⟩ := leftVars x mem
    have old := Nat.lt_of_lt_of_le bound firstEnough
    rw [← second.grows.canonicalVariable old]
    exact Signature.canonicalVariable_mem (Nat.lt_of_lt_of_le old second.grows.canonicalSize)
  · obtain ⟨index, bound, rfl⟩ := rightVars x mem
    exact Signature.canonicalVariable_mem (Nat.lt_of_lt_of_le bound enough)

namespace Attempt

variable {signature : Signature} {p : PredicateSymbol} {c d r : Clause} {attempt : Attempt}

/-- An attempt between clauses over a signature that succeeds: its two atoms, the
rest and the unifier, and what is known of them. -/
theorem exists_of_resolvent? (mem : attempt ∈ c.attempts p d)
    (resolved : attempt.resolvent? = some r) :
    ∃ a b place otherPlace σ, c.literals[place]? = some (.positive a) ∧
      d.literals[otherPlace]? = some (.negative b) ∧ a.predicate = p ∧ b.predicate = p ∧
      attempt = ⟨a, b, c.without place ++ d.without otherPlace, some σ⟩ ∧
      a.unify b = some σ ∧
      r = (Clause.ofList (c.without place ++ d.without otherPlace)).apply σ := by
  obtain ⟨a, b, place, otherPlace, found, otherFound, onPredicate, otherOnPredicate, rfl⟩ :=
    Clause.mem_attempts.mp mem
  obtain ⟨σ, unified, rfl⟩ := Option.map_eq_some_iff.mp resolved
  exact ⟨a, b, place, otherPlace, σ, found, otherFound, onPredicate, otherOnPredicate,
    congrArg (Attempt.mk a b _) unified, unified, rfl⟩

/-- The clause that an attempt gives is satisfied where both clauses are. -/
theorem satisfies_resolvent {D : Type u} {M : Model D} (mem : attempt ∈ c.attempts p d)
    (resolved : attempt.resolvent? = some r) (cOver : c.IsOver signature)
    (dOver : d.IsOver signature) (cSatisfied : M.Satisfies c) (dSatisfied : M.Satisfies d) :
    M.Satisfies r := by
  obtain ⟨a, b, place, otherPlace, σ, found, otherFound, -, -, -, unified, rfl⟩ :=
    exists_of_resolvent? mem resolved
  have equal : a.apply σ = b.apply σ :=
    Atom.apply_eq_of_unify unified (cOver _ (List.mem_of_getElem? found))
      (dOver _ (List.mem_of_getElem? otherFound))
  intro ρ
  rw [Clause.holds_apply]
  have ofRest {literal : Literal Atom}
      (literalMem : literal ∈ c.without place ++ d.without otherPlace)
      (holds : literal.Holds fun a => a.Holds M (σ.valuation M ρ)) :
      (Clause.ofList (c.without place ++ d.without otherPlace)).Holds M (σ.valuation M ρ) :=
    ⟨literal, Sorted.mem_ofList.mpr literalMem, holds⟩
  obtain ⟨l, lMem, lHolds⟩ := cSatisfied (σ.valuation M ρ)
  rcases Clause.eq_or_mem_without found lMem with rfl | lRest
  · obtain ⟨k, kMem, kHolds⟩ := dSatisfied (σ.valuation M ρ)
    rcases Clause.eq_or_mem_without otherFound kMem with rfl | kRest
    · -- Both literals that are resolved away cannot be true.
      have aHolds : (a.apply σ).Holds M ρ := (Atom.holds_apply M ρ σ a).mpr lHolds
      rw [equal, Atom.holds_apply] at aHolds
      exact absurd aHolds kHolds
    · exact ofRest (List.mem_append_right _ kRest) kHolds
  · exact ofRest (List.mem_append_left _ lRest) lHolds

/-- The literals that are left are literals of the two clauses. -/
theorem mem_of_mem_rest {place otherPlace : Nat} {literal : Literal Atom}
    (mem : literal ∈ c.without place ++ d.without otherPlace) :
    literal ∈ c.literals ∨ literal ∈ d.literals :=
  (List.mem_append.mp mem).imp Clause.mem_of_mem_without Clause.mem_of_mem_without

/-- The variables of the clause that an attempt gives are variables of the two
clauses. -/
theorem mem_vars_of_resolvent (mem : attempt ∈ c.attempts p d)
    (resolved : attempt.resolvent? = some r) {x : Variable} (xMem : x ∈ r.vars) :
    x ∈ c.vars ∨ x ∈ d.vars := by
  obtain ⟨a, b, place, otherPlace, σ, found, otherFound, -, -, -, unified, rfl⟩ :=
    exists_of_resolvent? mem resolved
  have inAtom {e : Clause} {atom : Atom} {sign : Sign} (mem : ⟨atom, sign⟩ ∈ e.literals)
      (xMem : x ∈ atom.vars) : x ∈ e.vars := by
    rw [Atom.vars, Term.varsOfArgs_eq, List.mem_flatMap] at xMem
    obtain ⟨t, tMem, xMem⟩ := xMem
    exact Clause.mem_vars.mpr ⟨_, mem, t, tMem, xMem⟩
  obtain ⟨v, vMem, xMem⟩ := Clause.exists_of_mem_vars_apply xMem
  rcases Atom.mem_vars_of_unify unified xMem with rfl | inFirst | inSecond
  · obtain ⟨literal, literalIn, t, tMem, xMem⟩ := Clause.mem_vars.mp vMem
    rcases mem_of_mem_rest (Sorted.mem_ofList.mp literalIn) with inLeft | inRight
    · exact .inl (Clause.mem_vars.mpr ⟨literal, inLeft, t, tMem, xMem⟩)
    · exact .inr (Clause.mem_vars.mpr ⟨literal, inRight, t, tMem, xMem⟩)
  · exact .inl (inAtom (List.mem_of_getElem? found) inFirst)
  · exact .inr (inAtom (List.mem_of_getElem? otherFound) inSecond)

/-- The clause that an attempt gives is over the signature. -/
theorem isOver_resolvent (mem : attempt ∈ c.attempts p d)
    (resolved : attempt.resolvent? = some r) (cOver : c.IsOver signature)
    (dOver : d.IsOver signature) : r.IsOver signature := by
  obtain ⟨a, b, place, otherPlace, σ, found, otherFound, -, -, -, unified, rfl⟩ :=
    exists_of_resolvent? mem resolved
  have aMem := List.mem_of_getElem? found
  have bMem := List.mem_of_getElem? otherFound
  refine Clause.IsOver.apply (Atom.isOver_of_unify unified (cOver _ aMem) (dOver _ bMem)) ?_
  refine Clause.isOver_ofList.mpr fun literal mem => ?_
  exact (mem_of_mem_rest mem).elim (cOver literal) (dOver literal)

end Attempt

/-- A clause over canonical variables has no more variables than there are. -/
theorem Clause.length_vars_le (vars : ∀ x ∈ c.vars, x ∈ signature.canonical) :
    c.vars.length ≤ signature.canonical.size := by
  have bound : c.vars.length ≤ signature.canonical.toList.length :=
    c.nodup_vars.length_le_of_subset fun x mem => Array.mem_def.mp (vars x mem)
  simpa using bound

/-- A clause over a signature whose variables are canonical variables can be
renamed onto the first of them. -/
theorem Clause.IsOver.normalize (isOver : c.IsOver signature) (has : signature.HasCanonical)
    (vars : ∀ x ∈ c.vars, x ∈ signature.canonical) : (c.normalize signature).IsOver signature :=
  isOver.renameFrom has ((Nat.zero_add _).symm ▸ length_vars_le vars)

/-- What is known of a resolvent of two clauses that were renamed apart. -/
theorem RenamedApart.resolvent_spec {d left right r : Clause} {extended : Signature}
    (apart : RenamedApart c d signature left right extended) {p : PredicateSymbol}
    (mem : r ∈ Attempt.resolvents extended (left.attempts p right)) :
    r.IsOver extended ∧
      ∀ {D : Type u} (M : Model D), M.Satisfies c → M.Satisfies d → M.Satisfies r := by
  obtain ⟨attempt, attemptMem, given⟩ := List.mem_filterMap.mp mem
  obtain ⟨resolvent, resolved, rfl⟩ := Option.map_eq_some_iff.mp given
  have isOver := Attempt.isOver_resolvent attemptMem resolved apart.leftOver apart.rightOver
  refine ⟨isOver.normalize apart.hasCanonical fun x mem =>
    (Attempt.mem_vars_of_resolvent attemptMem resolved mem).elim (apart.leftVars x)
      (apart.rightVars x), fun M cSatisfied dSatisfied => ?_⟩
  exact (Attempt.satisfies_resolvent attemptMem resolved apart.leftOver apart.rightOver
    (cSatisfied.of_isVariantOf apart.leftVariant)
    (dSatisfied.of_isVariantOf apart.rightVariant)).apply _

end Entailment.FirstOrder
