import Entailment.Proofs.FirstOrder.RenumberedLowering

/-!
# Clauses on canonical variables as renumbered clauses

The canonical variables of a proper signature are in the order of their creation.  So
a clause on canonical variables is a clause on the variables `0, 1, …`, renumbered,
and two signatures that were extended by different amounts in between differ in the
renumbering only.
-/

namespace Entailment.FirstOrder

open Sorted (Embeds)

variable {signature extended : Signature}

/-! ## Renumberings that agree -/

namespace Renumbering

/-- The renumbering that changes nothing. -/
def same : Renumbering := ofPlaces strictMono_id strictMono_id strictMono_id

end Renumbering

theorem Term.renumber_same (t : Term) : t.renumber .same = t := by
  induction t using Term.induction with
  | var v => rfl
  | app f args ih =>
      rw [renumber_app, List.map_congr_left ih, List.map_id']
      rfl

theorem Clause.renumber_same (c : Clause) : c.renumber .same = c := by
  have sameAtom (a : Atom) : a.renumber .same = a := by
    obtain ⟨p, args⟩ := a
    simp only [Atom.renumber, List.map_congr_left fun t _ => Term.renumber_same t, List.map_id']
    rfl
  have sameLiteral (literal : Literal Atom) : literal.map (Atom.renumber .same) = literal :=
    congrArg (Literal.mk · literal.sign) (sameAtom literal.atom)
  rw [renumber, renumberLiterals, List.map_congr_left fun literal _ => sameLiteral literal,
    List.map_id']

/-- Where one renumbering stays inside a signature, another one does the same. -/
structure Renumbering.AgreesOn (signature : Signature) (other ρ : Renumbering) : Prop where
  onVariable : ∀ v, (ρ.onVariable v).index < signature.vars.size →
    other.onVariable v = ρ.onVariable v
  onFunction : ∀ f, (ρ.onFunction f).index < signature.functions.size →
    other.onFunction f = ρ.onFunction f
  onPredicate : ∀ p, (ρ.onPredicate p).index < signature.predicates.size →
    other.onPredicate p = ρ.onPredicate p

section

variable {ρ other : Renumbering} (agrees : other.AgreesOn signature ρ)

include agrees

theorem Term.renumber_eq_of_agreesOn {t : Term} (isOver : (t.renumber ρ).IsOver signature) :
    t.renumber other = t.renumber ρ := by
  induction t using Term.induction with
  | var v => exact congrArg Term.var (agrees.onVariable v (isOver_var.mp isOver))
  | app f args ih =>
      rw [renumber_app] at isOver ⊢
      obtain ⟨bound, -, argsOver⟩ := isOver_app.mp isOver
      rw [renumber_app, agrees.onFunction f bound,
        List.map_congr_left fun t mem => ih t mem (argsOver _ (List.mem_map_of_mem mem))]

theorem Clause.renumber_eq_of_agreesOn {c : Clause} (isOver : (c.renumber ρ).IsOver signature) :
    c.renumber other = c.renumber ρ := by
  refine congrArg Clause.mk (List.map_congr_left fun literal mem => ?_)
  have atomOver := isOver _ (List.mem_map_of_mem mem)
  refine congrArg (Literal.mk · literal.sign) ?_
  exact congrArg₂ Atom.mk (agrees.onPredicate _ atomOver.bound) (List.map_congr_left fun t tMem =>
    Term.renumber_eq_of_agreesOn agrees (atomOver.isOver _ (List.mem_map_of_mem tMem)))

end

/-! ## Canonical variables -/

/-- Canonical variables of greater numbers are created later, those included that are
still to be created. -/
theorem Signature.IsProper.strictMono_canonicalAt (proper : signature.IsProper) :
    StrictMono fun index => (signature.canonicalAt index).index := by
  intro first second less
  simp only [canonicalAt]
  split
  · rename_i firstCreated
    split
    · rename_i secondCreated
      exact proper.canonicalVariable_lt less secondCreated
    · have old := proper.hasCanonical.canonicalVariable_lt firstCreated
      exact Nat.lt_of_lt_of_le old (Nat.le_add_right ..)
  · rw [if_neg (by omega)]
    simp only
    omega

/-- The renumbering of variables as canonical variables, with places for symbols. -/
def Renumbering.onCanonical (proper : signature.IsProper) {functions predicates : Nat → Nat}
    (onFunctions : StrictMono functions) (onPredicates : StrictMono predicates) : Renumbering :=
  ofPlaces proper.strictMono_canonicalAt onFunctions onPredicates

section

variable {functions predicates : Nat → Nat} (onFunctions : StrictMono functions)
  (onPredicates : StrictMono predicates)

theorem Signature.follows_onCanonical (proper : signature.IsProper) :
    Signature.empty.Follows (.onCanonical proper onFunctions onPredicates) signature := by
  intro index
  have number : Signature.empty.canonicalAt index = ⟨index⟩ := by
    simp [canonicalAt, empty]
  rw [number]
  rfl

/-- The canonical variables of a signature stay what they are when it grows. -/
theorem Renumbering.onCanonical_agreesOn (grows : signature.GrowsTo extended)
    (proper : signature.IsProper) (extendedProper : extended.IsProper)
    (keepsFunctions : ∀ index < signature.functions.size, functions index = index)
    (keepsPredicates : ∀ index < signature.predicates.size, predicates index = index) :
    (onCanonical extendedProper onFunctions onPredicates).AgreesOn signature
      (onCanonical proper strictMono_id strictMono_id) where
  onVariable v bound := by
    have created : v.index < signature.canonical.size := by
      by_contra missing
      simp only [onCanonical, ofPlaces, Signature.canonicalAt, missing, if_false] at bound
      omega
    have stillCreated := Nat.lt_of_lt_of_le created grows.canonicalSize
    simp only [onCanonical, ofPlaces, Signature.canonicalAt_of_lt created,
      Signature.canonicalAt_of_lt stillCreated, grows.canonicalVariable created]
  onFunction f bound := congrArg FunctionSymbol.mk (keepsFunctions f.index bound)
  onPredicate p bound := congrArg PredicateSymbol.mk (keepsPredicates p.index bound)

end

theorem Signature.canonicalAt_canonicalAll (clauses : List Clause) (signature : Signature)
    (index : Nat) :
    (Clause.canonicalAll clauses signature).2.canonicalAt index = signature.canonicalAt index := by
  induction clauses generalizing signature with
  | nil => rfl
  | cons c rest ih =>
      simp only [Clause.canonicalAll, Clause.canonical, ih, canonicalAt_reserveCanonical]

/-- Renaming renumbered clauses onto the canonical variables of a signature is
renumbering what they are renamed to over the signature without symbols. -/
theorem Clause.canonicalAll_renumber {ρ : Renumbering} {clauses : List Clause}
    (increasing : ∀ c ∈ clauses, Sorted.IsIncreasing c.literals) {last : Signature}
    (isLast : last = (canonicalAll (clauses.map (renumber ρ)) signature).2) (proper : last.IsProper)
    {functions predicates : Nat → Nat} (onFunctions : StrictMono functions)
    (onPredicates : StrictMono predicates)
    (sameFunctions : ρ.onFunction = fun f => ⟨functions f.index⟩)
    (samePredicates : ρ.onPredicate = fun p => ⟨predicates p.index⟩) :
    (canonicalAll (clauses.map (renumber ρ)) signature).1 =
      (canonicalAll clauses .empty).1.map
        (renumber (.onCanonical proper onFunctions onPredicates)) := by
  have follows :
      Signature.empty.Follows (.onCanonical proper onFunctions onPredicates) signature := by
    intro index
    have unchanged : last.canonicalAt index = signature.canonicalAt index := by
      rw [isLast, Signature.canonicalAt_canonicalAll]
    exact unchanged.symm.trans (Signature.follows_onCanonical onFunctions onPredicates proper index)
  exact follows.canonicalAll sameFunctions samePredicates increasing

section

variable {invert : Bool} {free : List Variable} {formula : Formula Variable Atom}
  {clauses : List Clause}

theorem exists_unrenamedClauses
    (made : (clausesOf invert free formula signature).clauses = .ok clauses) :
    ∃ unrenamed, (unrenamedClauses invert free formula signature).1 = .ok unrenamed := by
  rw [(clausesOf_eq invert free formula signature).1] at made
  cases unrenamed : (unrenamedClauses invert free formula signature).1 with
  | error error =>
      rw [unrenamed] at made
      cases made
  | ok originals => exact ⟨originals, rfl⟩

/-- The clauses of a formula, from the clauses before renaming as renumbered ones. -/
theorem clauses_eq_of_unrenamedClauses {ρ : Renumbering} {originals : List Clause}
    (increasing : ∀ c ∈ originals, Sorted.IsIncreasing c.literals)
    (unrenamed : (unrenamedClauses invert free formula signature).1 =
      .ok (originals.map (Clause.renumber ρ)))
    (made : (clausesOf invert free formula signature).clauses = .ok clauses)
    (proper : extended.IsProper)
    (isLast : extended = (clausesOf invert free formula signature).signature)
    {functions predicates : Nat → Nat}
    (onFunctions : StrictMono functions) (onPredicates : StrictMono predicates)
    (sameFunctions : ρ.onFunction = fun f => ⟨functions f.index⟩)
    (samePredicates : ρ.onPredicate = fun p => ⟨predicates p.index⟩) :
    clauses = (Clause.canonicalAll originals .empty).1.map
      (Clause.renumber (.onCanonical proper onFunctions onPredicates)) := by
  obtain ⟨sameClauses, sameSignature⟩ := clausesOf_eq invert free formula signature
  rw [sameClauses, unrenamed] at made
  refine (Except.ok.inj made).symm.trans ?_
  exact Clause.canonicalAll_renumber increasing (isLast.trans (sameSignature _ unrenamed)) proper
    onFunctions onPredicates sameFunctions samePredicates

/-- The clauses of a formula are clauses on the variables `0, 1, …`, renumbered. -/
theorem exists_onCanonical
    (made : (clausesOf invert free formula signature).clauses = .ok clauses)
    (proper : extended.IsProper)
    (isLast : extended = (clausesOf invert free formula signature).signature) :
    ∃ originals, (unrenamedClauses invert free formula signature).1 = .ok originals ∧
      clauses = (Clause.canonicalAll originals .empty).1.map
        (Clause.renumber (.onCanonical proper strictMono_id strictMono_id)) := by
  obtain ⟨originals, unrenamed⟩ := exists_unrenamedClauses made
  have same : originals.map (Clause.renumber .same) = originals := by
    rw [List.map_congr_left fun c _ => c.renumber_same, List.map_id']
  exact ⟨originals, unrenamed, clauses_eq_of_unrenamedClauses
    (isIncreasing_of_unrenamedClauses unrenamed) (unrenamed.trans (congrArg Except.ok same.symm))
    made proper isLast strictMono_id strictMono_id rfl rfl⟩

end

end Entailment.FirstOrder
