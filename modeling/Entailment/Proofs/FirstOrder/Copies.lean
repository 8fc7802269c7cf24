import Entailment.Proofs.FirstOrder.MostGeneral
import Entailment.Proofs.FirstOrder.ResolventSoundness

/-!
# Renamed clauses have the same instances

In a proper signature the canonical variables are different, so renaming a clause
onto them keeps different variables different.  What is put in for the variables of
the clause can then be put in for the variables of the renamed clause, with the
same instances of the literals.  This holds of clauses that are renamed apart, of
resolvents, and of the clauses of a formula.
-/

namespace Entailment.FirstOrder

namespace Clause

variable {c : Clause} {signature : Signature}

/-- A clause that is another one with its variables renamed, where whatever is put
in for the variables of the other can be put in for its own. -/
def IsCopyOf (copy c : Clause) : Prop :=
  ∃ σ : Substitution, copy = c.apply σ ∧
    ∀ image : Variable → Term, ∃ carried : Variable → Term,
      ∀ literal ∈ c.literals, (literal.atom.apply σ).replace carried = literal.atom.replace image

theorem mem_vars_of_mem_atom {literal : Literal Atom} (mem : literal ∈ c.literals) {v : Variable}
    (vMem : v ∈ literal.atom.vars) : v ∈ c.vars := by
  rw [Atom.vars, Term.varsOfArgs_eq, List.mem_flatMap] at vMem
  obtain ⟨t, tMem, vMem⟩ := vMem
  exact mem_vars.mpr ⟨literal, mem, t, tMem, vMem⟩

/-- Renaming onto canonical variables that exist makes a copy. -/
theorem renameFrom_isCopyOf (proper : signature.IsProper) {next : Nat}
    (enough : next + c.vars.length ≤ signature.canonical.size) :
    (c.renameFrom signature next).IsCopyOf c := by
  refine ⟨_, rfl, fun image => ?_⟩
  obtain ⟨carried, carries⟩ := proper.exists_carried c.nodup_vars enough image
  refine ⟨carried, fun literal mem => ?_⟩
  rw [Atom.replace_apply]
  refine Atom.replace_congr fun v vMem => ?_
  have inClause := mem_vars_of_mem_atom mem vMem
  obtain ⟨place, -, -, isImage⟩ := signature.exists_place_of_mem next c.nodup_vars inClause
  rw [isImage, Term.replace_var]
  exact carries v inClause _ isImage

/-- Clauses that are renamed apart are copies of the clauses they come from. -/
theorem renameApart_isCopyOf {c d : Clause} {signature : Signature} (proper : signature.IsProper) :
    (c.renameApart d signature).1.IsCopyOf c ∧ (c.renameApart d signature).2.1.IsCopyOf d := by
  obtain ⟨first, firstEnough⟩ := signature.reserveCanonical_spec (0 + c.vars.length)
  obtain ⟨second, secondEnough⟩ :=
    (signature.reserveCanonical (0 + c.vars.length)).reserveCanonical_spec
      (0 + c.vars.length + d.vars.length)
  have firstProper := first.proper proper
  exact ⟨renameFrom_isCopyOf firstProper firstEnough,
    renameFrom_isCopyOf (second.proper firstProper) secondEnough⟩

/-- A clause over canonical variables that is renamed onto the first of them is
copied. -/
theorem normalize_isCopyOf (proper : signature.IsProper)
    (vars : ∀ x ∈ c.vars, x ∈ signature.canonical) : (c.normalize signature).IsCopyOf c :=
  renameFrom_isCopyOf proper ((Nat.zero_add _).symm ▸ length_vars_le vars)

/-- Renaming a clause onto the first canonical variables, which are created, copies
it. -/
theorem canonical_isCopyOf (proper : signature.IsProper) (c : Clause) :
    (c.canonical signature).1.IsCopyOf c := by
  obtain ⟨gains, enough⟩ := signature.reserveCanonical_spec c.vars.length
  exact renameFrom_isCopyOf (gains.proper proper) (by omega)

end Clause

/-- Two clauses and the copies of them that are renamed apart, over a proper
signature. -/
structure CopiedApart (c d : Clause) (base : Signature) (left right : Clause)
    (extended : Signature) : Prop extends RenamedApart c d base left right extended where
  proper : extended.IsProper
  leftCopy : left.IsCopyOf c
  rightCopy : right.IsCopyOf d

end Entailment.FirstOrder
