import Entailment.Proofs.FirstOrder.CanonicalNumbering
import Entailment.Proofs.FirstOrder.Lifting
import Entailment.Proofs.FirstOrder.Tautologies

/-!
# Clauses that are renamed one after the other

A renamer maps the variables of one clause after the other to canonical variables, each
clause from the number on at which the one before it ended.  The variables of a clause may be
canonical variables themselves, in any order: all of them are replaced at once, so that a
variable is never renamed twice.

Each result is its clause under an injective renaming.  So its literals stay different, and
two of them are complementary exactly when they were before.  The results use disjoint ranges
of canonical variables, whatever else is added to the signature in between.
-/

namespace Entailment.FirstOrder

/-! ## Injective renamings -/

/-- A renaming that keeps some variables apart agrees on them with a renaming that keeps all
variables apart. -/
theorem exists_injective_of_injOn {vars : List Variable} {f : Variable → Variable}
    (injOn : ∀ v ∈ vars, ∀ w ∈ vars, f v = f w → v = w) :
    ∃ g : Variable → Variable, Function.Injective g ∧ ∀ v ∈ vars, g v = f v := by
  obtain ⟨bound, above⟩ : ∃ bound, ∀ v ∈ vars, (f v).index < bound := by
    clear injOn
    induction vars with
    | nil => exact ⟨0, by simp⟩
    | cons v rest ih =>
        obtain ⟨bound, above⟩ := ih
        refine ⟨max bound ((f v).index + 1), fun w mem => ?_⟩
        rcases List.mem_cons.mp mem with rfl | mem
        · omega
        · have := above w mem
          omega
  -- The other variables go beyond all images.
  refine ⟨fun v => if v ∈ vars then f v else ⟨v.index + bound⟩, fun v w same => ?_, ?_⟩
  · simp only at same
    split at same <;> split at same
    · rename_i vMem wMem
      exact injOn v vMem w wMem same
    · rename_i vMem _
      have := above v vMem
      rw [same] at this
      simp only at this
      omega
    · rename_i _ wMem
      have := above w wMem
      rw [← same] at this
      simp only at this
      omega
    · have sameIndex := Nat.add_right_cancel (Variable.mk.inj same)
      cases v
      cases w
      exact congrArg Variable.mk sameIndex
  · intro v mem
    simp only [mem, if_true]

section

variable {f : Variable → Variable}

theorem Term.rename_injective (injective : Function.Injective f) :
    Function.Injective (Term.replace fun v => .var (f v)) := by
  have : Nonempty Variable := ⟨⟨0⟩⟩
  obtain ⟨back, inverse⟩ := injective.hasLeftInverse
  have restores (t : Term) :
      (t.replace fun v => .var (f v)).replace (fun v => .var (back v)) = t := by
    rw [replace_replace]
    simp only [replace_var, inverse _, replace_self]
  exact Function.LeftInverse.injective restores

theorem Atom.rename_injective (injective : Function.Injective f) :
    Function.Injective (Atom.replace fun v => .var (f v)) := by
  rintro ⟨p, ss⟩ ⟨q, ts⟩ same
  obtain ⟨samePredicate, sameArgs⟩ := Atom.mk.inj same
  exact Atom.mk.injEq .. ▸ ⟨samePredicate,
    List.map_injective_iff.mpr (Term.rename_injective injective) sameArgs⟩

theorem renameLiteral_injective (injective : Function.Injective f) :
    Function.Injective (renameLiteral f) := by
  rintro ⟨a, sign⟩ ⟨b, otherSign⟩ same
  obtain ⟨sameAtom, sameSign⟩ := Literal.mk.inj same
  exact Literal.mk.injEq .. ▸ ⟨Atom.rename_injective injective sameAtom, sameSign⟩

end

namespace Clause

/-- A clause with other variables. -/
def rename (f : Variable → Variable) (c : Clause) : Clause :=
  ofList (c.literals.map (renameLiteral f))

section

variable {f : Variable → Variable} (injective : Function.Injective f) (c : Clause)

include injective

theorem isTautology_rename : (c.rename f).isTautology = c.isTautology := by
  have renamed {literal : Literal Atom} : literal ∈ (c.rename f).literals ↔
      ∃ original ∈ c.literals, renameLiteral f original = literal := by
    rw [rename, ofList, Sorted.mem_ofList, List.mem_map]
  rw [Bool.eq_iff_iff, isTautology_iff, isTautology_iff]
  constructor
  · rintro ⟨a, isPositive, isNegative⟩
    obtain ⟨⟨b, sign⟩, mem, same⟩ := renamed.mp isPositive
    obtain ⟨⟨d, otherSign⟩, otherMem, otherSame⟩ := renamed.mp isNegative
    obtain ⟨rfl, rfl⟩ := Literal.mk.inj same
    obtain ⟨sameAtom, rfl⟩ := Literal.mk.inj otherSame
    obtain rfl : d = b := Atom.rename_injective injective sameAtom
    exact ⟨d, mem, otherMem⟩
  · rintro ⟨a, isPositive, isNegative⟩
    exact ⟨_, renamed.mpr ⟨_, isPositive, rfl⟩, renamed.mpr ⟨_, isNegative, rfl⟩⟩

theorem size_rename (nodup : c.literals.Nodup) : (c.rename f).size = c.size := by
  have renamedNodup : (c.literals.map (renameLiteral f)).Nodup :=
    nodup.map (renameLiteral_injective injective)
  have perm : (c.rename f).literals.Perm (c.literals.map (renameLiteral f)) :=
    (List.perm_ext_iff_of_nodup (Sorted.isIncreasing_ofList _).nodup renamedNodup).mpr
      fun _ => Sorted.mem_ofList
  rw [size, perm.length_eq, List.length_map, size]

end

/-- Renaming a clause from a number on is renaming it injectively. -/
theorem exists_rename_eq_renameFrom {signature : Signature} (proper : signature.IsProper)
    {next : Nat} {c : Clause} (increasing : Sorted.IsIncreasing c.literals)
    (enough : next + c.vars.length ≤ signature.canonical.size) :
    ∃ f, Function.Injective f ∧ c.renameFrom signature next = c.rename f := by
  choose f images using signature.isRenaming_renaming next c.nodup_vars
  have injOn : ∀ v ∈ c.vars, ∀ w ∈ c.vars, f v = f w → v = w := by
    intro v vMem w wMem same
    refine proper.image_renaming_inj c.nodup_vars enough vMem wMem ?_
    rw [images, images, same]
  obtain ⟨g, injective, agrees⟩ := exists_injective_of_injOn injOn
  refine ⟨g, injective, ?_⟩
  rw [renameFrom, apply_eq_ofList increasing, rename]
  refine congrArg ofList (List.map_congr_left fun literal mem => ?_)
  refine congrArg (Literal.mk · literal.sign) ?_
  rw [Atom.apply_eq_replace]
  refine Atom.replace_congr fun v vMem => ?_
  rw [images, agrees v (mem_vars_of_mem_atom mem vMem)]

end Clause

/-! ## A renamer at work -/

/-- What can be done to a signature. -/
inductive Signature.Operation where
  | addVariable (name : String)
  | internFunction (name : String) (arity : Nat)
  | addSkolem (arity : Nat)
  | internPredicate (name : String) (arity : Nat)
  | reserveCanonical (count : Nat)

namespace Signature

/-- Carry out an operation. -/
def perform (signature : Signature) : Operation → Signature
  | .addVariable name => (signature.addVariable name).2
  | .internFunction name arity => (signature.internFunction name arity).2
  | .addSkolem arity => (signature.addSkolem arity).2
  | .internPredicate name arity => (signature.internPredicate name arity).2
  | .reserveCanonical count => signature.reserveCanonical count

variable {signature : Signature}

theorem Built.perform (built : signature.Built) (operation : Operation) :
    (signature.perform operation).Built := by
  cases operation with
  | addVariable name => exact built.addVariable name
  | internFunction name arity => exact built.internFunction name arity
  | addSkolem arity => exact built.addSkolem arity
  | internPredicate name arity => exact built.internPredicate name arity
  | reserveCanonical count => exact built.reserveCanonical count

theorem growsTo_perform (operation : Operation) :
    signature.GrowsTo (signature.perform operation) := by
  cases operation with
  | addVariable name => exact growsTo_addVariable name signature
  | internFunction name arity => exact growsTo_internFunction name arity signature
  | addSkolem arity => exact growsTo_addSkolem arity signature
  | internPredicate name arity => exact growsTo_internPredicate name arity signature
  | reserveCanonical count => exact (signature.reserveCanonical_spec count).1.grows

end Signature

/-- What happens while a renamer is in use: it renames the clause of some literals, or the
signature is changed. -/
inductive RenamerStep where
  | rename (literals : List (Literal Atom))
  | change (operation : Signature.Operation)

/-- The clause that a step renames. -/
def RenamerStep.clause? : RenamerStep → Option Clause
  | .rename literals => some (.ofList literals)
  | .change _ => none

/-- The clauses that a renamer renames and what they become, when the next number is `next`. -/
def renamings : List RenamerStep → Nat → Signature → List (Clause × Clause)
  | [], _, _ => []
  | .change operation :: rest, next, signature =>
      renamings rest next (signature.perform operation)
  | .rename literals :: rest, next, signature =>
      let c := Clause.ofList literals
      let (renamed, next, signature) := c.standardizeApart next signature
      (c, renamed) :: renamings rest next signature

/-- The variable is a canonical variable of a number that is not below `next`, in a signature
that has come out of another one. -/
def Signature.HasLater (signature : Signature) (next : Nat) (v : Variable) : Prop :=
  ∃ extended index, signature.GrowsTo extended ∧ extended.IsProper ∧ next ≤ index ∧
    index < extended.canonical.size ∧ v = extended.canonicalVariable index

theorem Signature.HasLater.mono {signature between : Signature} {next later : Nat} {v : Variable}
    (grows : signature.GrowsTo between) (noEarlier : next ≤ later)
    (has : between.HasLater later v) : signature.HasLater next v := by
  obtain ⟨extended, index, growsOn, proper, lower, bound, isIt⟩ := has
  exact ⟨extended, index, grows.trans growsOn, proper, noEarlier.trans lower, bound, isIt⟩

/-- What renaming one clause does: the result is an injective image of the clause over
canonical variables of the numbers from the old to the new next one. -/
theorem Clause.standardizeApart_step {signature extended : Signature} (built : signature.Built)
    {next last : Nat} {literals : List (Literal Atom)} {renamed : Clause}
    (result : (ofList literals).standardizeApart next signature = (renamed, last, extended)) :
    signature.GrowsTo extended ∧ extended.Built ∧ next ≤ last ∧
      (∃ f, Function.Injective f ∧ renamed = (ofList literals).rename f) ∧
      ∀ v ∈ renamed.vars, ∃ index, next ≤ index ∧ index < last ∧
        last ≤ extended.canonical.size ∧ v = extended.canonicalVariable index := by
  cases result
  have extendedBuilt := built.reserveCanonical (next + (ofList literals).vars.length)
  obtain ⟨gains, enough⟩ :=
    signature.reserveCanonical_spec (next + (ofList literals).vars.length)
  refine ⟨gains.grows, extendedBuilt, Nat.le_add_right .., ?_, fun v mem => ?_⟩
  · exact exists_rename_eq_renameFrom extendedBuilt.isProper (Sorted.isIncreasing_ofList literals)
      enough
  · obtain ⟨index, lower, upper, isIt⟩ := exists_of_mem_vars_renameFrom mem
    exact ⟨index, lower, upper, enough, isIt⟩

/-- What a renamer does from a number on: every result is an injective image of its clause,
its variables have no smaller numbers, and no two results share a variable. -/
theorem renamings_spec (steps : List RenamerStep) (next : Nat) {signature : Signature}
    (built : signature.Built) :
    (∀ entry ∈ renamings steps next signature,
      (∃ f, Function.Injective f ∧ entry.2 = entry.1.rename f) ∧
        ∀ v ∈ entry.2.vars, signature.HasLater next v) ∧
      (renamings steps next signature).Pairwise
        fun earlier later => ∀ v ∈ earlier.2.vars, v ∉ later.2.vars := by
  induction steps generalizing next signature with
  | nil => exact ⟨by simp [renamings], .nil⟩
  | cons step rest ih =>
      cases step with
      | change operation =>
          obtain ⟨each, disjoint⟩ := ih next (built.perform operation)
          refine ⟨fun entry mem => ?_, disjoint⟩
          obtain ⟨variant, later⟩ := each entry mem
          exact ⟨variant, fun v vMem =>
            (later v vMem).mono (Signature.growsTo_perform operation) (Nat.le_refl _)⟩
      | rename literals =>
          simp only [renamings]
          generalize result : (Clause.ofList literals).standardizeApart next signature = outcome
          obtain ⟨renamed, last, extended⟩ := outcome
          obtain ⟨grows, extendedBuilt, noEarlier, variant, range⟩ :=
            Clause.standardizeApart_step built result
          obtain ⟨each, disjoint⟩ := ih last extendedBuilt
          refine ⟨List.forall_mem_cons.mpr ⟨⟨variant, fun v vMem => ?_⟩, fun entry mem => ?_⟩,
            List.pairwise_cons.mpr ⟨fun entry mem v vMem laterMem => ?_, disjoint⟩⟩
          · obtain ⟨index, lower, upper, enough, isIt⟩ := range v vMem
            exact ⟨extended, index, grows, extendedBuilt.isProper, lower,
              Nat.lt_of_lt_of_le upper enough, isIt⟩
          · exact ⟨(each entry mem).1, fun v vMem =>
              ((each entry mem).2 v vMem).mono grows noEarlier⟩
          · -- The number of a variable is below `last` in this result and not below it later.
            obtain ⟨index, -, upper, enough, isIt⟩ := range v vMem
            obtain ⟨further, other, growsOn, proper, lower, bound, isOther⟩ :=
              (each entry mem).2 v laterMem
            have old := Nat.lt_of_lt_of_le upper enough
            rw [isIt, ← growsOn.canonicalVariable old] at isOther
            have same := proper.canonicalVariable_inj
              (Nat.lt_of_lt_of_le old growsOn.canonicalSize) bound isOther
            omega

theorem map_fst_renamings (steps : List RenamerStep) (next : Nat) (signature : Signature) :
    (renamings steps next signature).map Prod.fst = steps.filterMap RenamerStep.clause? := by
  induction steps generalizing next signature with
  | nil => rfl
  | cons step rest ih =>
      cases step with
      | change operation => exact ih next (signature.perform operation)
      | rename literals => exact congrArg (Clause.ofList literals :: ·) (ih _ _)

/-- From every number on and over every signature, a renamer turns each clause it is given into
an image of it under an injective renaming of variables, with as many literals and a tautology
exactly when the clause is one, and no two of these images have a variable in common. -/
theorem renamings_are_disjoint_variants {signature : Signature} (built : signature.Built)
    (next : Nat) (steps : List RenamerStep) :
    (renamings steps next signature).map Prod.fst = steps.filterMap RenamerStep.clause? ∧
      (∀ entry ∈ renamings steps next signature,
        (∃ f, Function.Injective f ∧ entry.2 = entry.1.rename f) ∧
          entry.2.size = entry.1.size ∧ entry.2.isTautology = entry.1.isTautology) ∧
      (renamings steps next signature).Pairwise
        fun earlier later => ∀ v ∈ earlier.2.vars, v ∉ later.2.vars := by
  obtain ⟨each, disjoint⟩ := renamings_spec steps next built
  refine ⟨map_fst_renamings steps next signature, fun entry mem => ?_, disjoint⟩
  obtain ⟨f, injective, isImage⟩ := (each entry mem).1
  have isClause : entry.1 ∈ steps.filterMap RenamerStep.clause? :=
    map_fst_renamings steps next signature ▸ List.mem_map_of_mem mem
  have nodup : entry.1.literals.Nodup := by
    obtain ⟨step, -, isIt⟩ := List.mem_filterMap.mp isClause
    cases step with
    | change operation => cases isIt
    | rename literals =>
        rw [← Option.some.inj isIt]
        exact (Sorted.isIncreasing_ofList literals).nodup
  rw [isImage]
  exact ⟨⟨f, injective, rfl⟩, Clause.size_rename injective entry.1 nodup,
    Clause.isTautology_rename injective entry.1⟩

/-- The signature of the predicate `p` and the first two canonical variables. -/
def swappedSignature : Signature :=
  (Signature.empty.internPredicate "p" 2).2.reserveCanonical 2

/-- The clause `p(_2, _1) ∨ ¬p(_1, _2)` is renamed, a variable is created, and `p(_2, _1)` is
renamed. -/
def swappedSteps : List RenamerStep :=
  [.rename [.positive ⟨⟨0⟩, [.var ⟨1⟩, .var ⟨0⟩]⟩, .negative ⟨⟨0⟩, [.var ⟨0⟩, .var ⟨1⟩]⟩],
    .change (.addVariable "x"), .rename [.positive ⟨⟨0⟩, [.var ⟨1⟩, .var ⟨0⟩]⟩]]

/-- From the second canonical variable on, `_1` goes to `_2` and `_2` to `_3`, and neither goes
further.  The second clause gets the two canonical variables after that. -/
theorem renamings_are_disjoint_variants_swapped :
    swappedSignature.Built ∧
      (renamings swappedSteps 1 swappedSignature).map Prod.snd =
        [⟨[.negative ⟨⟨0⟩, [.var ⟨1⟩, .var ⟨2⟩]⟩, .positive ⟨⟨0⟩, [.var ⟨2⟩, .var ⟨1⟩]⟩]⟩,
          ⟨[.positive ⟨⟨0⟩, [.var ⟨4⟩, .var ⟨5⟩]⟩]⟩] ∧
      (∀ entry ∈ renamings swappedSteps 1 swappedSignature,
        (∃ f, Function.Injective f ∧ entry.2 = entry.1.rename f) ∧
          entry.2.size = entry.1.size ∧ entry.2.isTautology = entry.1.isTautology) ∧
      (renamings swappedSteps 1 swappedSignature).Pairwise
        fun earlier later => ∀ v ∈ earlier.2.vars, v ∉ later.2.vars := by
  have built : swappedSignature.Built :=
    (Signature.Built.empty.internPredicate _ _).reserveCanonical _
  have results := renamings_are_disjoint_variants built 1 swappedSteps
  exact ⟨built, by cbv, results.2.1, results.2.2⟩

end Entailment.FirstOrder
