import Entailment.Proofs.FirstOrder.Copies
import Entailment.Proofs.FirstOrder.EliminationInvariant
import Entailment.Proofs.FirstOrder.GroundResolution

/-!
# Resolving a rule with facts

A rule leads to a ground atom when some instance of it has facts for conditions and
the atom for a conclusion, and the conclusion is determined by the conditions.  A
copy of the rule leads to the same atom.  So does the resolvent of the rule with the
fact that one of its conditions becomes in that instance: the condition and the fact
are unified, the instance factors through the unifier, and the rule that is left has
fewer literals.  A rule without conditions is the atom itself.
-/

namespace Entailment.FirstOrder

namespace Clause

variable {a : Atom} {p : PredicateSymbol} {image : Variable → Term}

/-- The clause that states an atom. -/
def fact (a : Atom) : Clause := ⟨[.positive a]⟩

/-- An instance of a clause with facts for its negative literals and an atom for its
positive ones.  The negative literals are on other predicates than the atom, and
wherever they have these instances the positive literals become the atom. -/
structure LeadsAt (isFact : Atom → Prop) (target : Atom) (image : Variable → Term) (c : Clause) :
    Prop where
  conditions : ∀ a, .negative a ∈ c.literals →
    a.predicate ≠ target.predicate ∧ isFact (a.replace image)
  conclusion : ∃ a, .positive a ∈ c.literals
  determined : ∀ other : Variable → Term,
    (∀ a, .negative a ∈ c.literals → a.replace other = a.replace image) →
      ∀ a, .positive a ∈ c.literals → a.replace other = target
  nodup : c.literals.Nodup

/-- A clause with an instance from facts to an atom. -/
def LeadsTo (isFact : Atom → Prop) (target : Atom) (c : Clause) : Prop :=
  ∃ image, c.LeadsAt isFact target image

/-- A clause that asks for an atom: it is a negative literal with the atom for an
instance. -/
def AsksFor (target : Atom) (c : Clause) : Prop :=
  ∃ (a : Atom) (image : Variable → Term), c.literals = [.negative a] ∧ a.replace image = target

variable {isFact : Atom → Prop} {target : Atom} {c d : Clause}

theorem isGround_fact (ground : a.isGround = true) : (fact a).isGround = true := by
  simp [isGround, fact, Literal.positive, ground]

theorem mentions_fact : (fact a).mentions p = true ↔ p = a.predicate := by
  simp [mentions, fact, Literal.positive, eq_comm]

theorem hasLiteralOn_fact (onPredicate : a.predicate = p) :
    (fact a).hasLiteralOn p .positive = true := by
  simp [hasLiteralOn, fact, isOn, Literal.positive, onPredicate]

/-! ## Literals of an instance -/

theorem length_ofList_le (literals : List (Literal Atom)) :
    (ofList literals).literals.length ≤ literals.length :=
  (Sorted.isIncreasing_ofList literals).nodup.length_le_of_subset fun _ mem =>
    Sorted.mem_ofList.mp mem

theorem length_apply_le (σ : Substitution) (c : Clause) :
    (c.apply σ).literals.length ≤ c.literals.length := by
  unfold apply
  split
  · exact Nat.le_refl _
  · exact Nat.le_trans (length_ofList_le _) (Nat.le_of_eq (List.length_map _))

theorem eq_singleton {literals : List (Literal Atom)} {literal : Literal Atom}
    (nodup : literals.Nodup) (mem : literal ∈ literals)
    (only : ∀ other ∈ literals, other = literal) :
    literals = [literal] := by
  cases literals with
  | nil => cases mem
  | cons first rest =>
      obtain rfl := only first (List.mem_cons_self ..)
      cases rest with
      | nil => rfl
      | cons second others =>
          obtain rfl := only second (List.mem_cons_of_mem _ (List.mem_cons_self ..))
          simp at nodup

/-- An instance of a clause of one literal has one literal. -/
theorem literals_apply_of_eq_singleton {σ : Substitution} {literal : Literal Atom}
    (single : c.literals = [literal]) : (c.apply σ).literals = [literal.map (Atom.apply σ)] := by
  refine eq_singleton (nodup_apply (by simp [single])) ?_ fun other mem => ?_
  · exact mem_literals_apply.mpr ⟨literal, by simp [single], rfl⟩
  · obtain ⟨original, originalMem, rfl⟩ := mem_literals_apply.mp mem
    rw [single, List.mem_singleton] at originalMem
    rw [originalMem]

/-- A fact has no other copies. -/
theorem IsCopyOf.eq_fact (ground : a.isGround = true) (isCopy : c.IsCopyOf (fact a)) :
    c = fact a := by
  obtain ⟨σ, rfl, -⟩ := isCopy
  have literals := @literals_apply_of_eq_singleton (fact a) σ (.positive a) rfl
  rw [Literal.map, Literal.positive, Atom.apply_of_isGround ground] at literals
  exact congrArg Clause.mk literals

/-! ## Instances from facts to an atom -/

/-- In the instance the positive literals become the atom. -/
theorem LeadsAt.replace_eq {image : Variable → Term} (leads : c.LeadsAt isFact target image)
    {a : Atom} (mem : .positive a ∈ c.literals) : a.replace image = target :=
  leads.determined image (fun _ _ => rfl) a mem

theorem LeadsAt.predicate_eq (leads : c.LeadsAt isFact target image)
    (mem : .positive a ∈ c.literals) : a.predicate = target.predicate := by
  rw [← leads.replace_eq mem, Atom.replace]

/-- Instantiating some of the literals keeps what a clause leads to, if the instance
factors through the substitution, no positive literal is left out, and a negative
literal that is left out becomes the fact it is to become. -/
theorem LeadsAt.instantiate {image carried : Variable → Term} {σ : Substitution}
    {rest : List (Literal Atom)} (leads : c.LeadsAt isFact target image)
    (literals : ∀ literal, literal ∈ d.literals ↔
      ∃ original ∈ rest, original.map (Atom.apply σ) = literal)
    (nodup : d.literals.Nodup) (fromClause : ∀ literal ∈ rest, literal ∈ c.literals)
    (factors : ∀ literal ∈ rest,
      (literal.atom.apply σ).replace carried = literal.atom.replace image)
    (positives : ∀ a, .positive a ∈ c.literals → .positive a ∈ rest)
    (negatives : ∀ a, .negative a ∈ c.literals → .negative a ∈ rest ∨
      ∀ other, (a.apply σ).replace other = a.replace image) :
    d.LeadsAt isFact target carried := by
  have exists_original {a : Atom} {sign : Sign} (mem : ⟨a, sign⟩ ∈ d.literals) :
      ∃ b, ⟨b, sign⟩ ∈ rest ∧ b.apply σ = a := by
    obtain ⟨⟨b, other⟩, originalMem, same⟩ := (literals _).mp mem
    obtain ⟨sameAtom, sameSign⟩ := Literal.mk.inj same
    exact ⟨b, sameSign ▸ originalMem, sameAtom⟩
  have inInstance {a : Atom} {sign : Sign} (mem : ⟨a, sign⟩ ∈ rest) :
      ⟨a.apply σ, sign⟩ ∈ d.literals :=
    (literals _).mpr ⟨_, mem, rfl⟩
  constructor
  · intro a mem
    obtain ⟨b, bMem, rfl⟩ := exists_original mem
    obtain ⟨different, isFact⟩ := leads.conditions b (fromClause _ bMem)
    exact ⟨different, factors _ bMem ▸ isFact⟩
  · obtain ⟨a, mem⟩ := leads.conclusion
    exact ⟨a.apply σ, inInstance (positives a mem)⟩
  · intro other same a mem
    obtain ⟨b, bMem, rfl⟩ := exists_original mem
    rw [Atom.replace_apply]
    refine leads.determined _ (fun e eMem => ?_) b (fromClause _ bMem)
    rw [← Atom.replace_apply]
    rcases negatives e eMem with stays | settled
    · rw [same _ (inInstance stays)]
      exact factors _ stays
    · exact settled other
  · exact nodup

/-- A copy of a clause leads where the clause leads, and its literals have the same
instances. -/
theorem LeadsAt.copy (leads : c.LeadsAt isFact target image) (isCopy : d.IsCopyOf c) :
    ∃ carried, d.LeadsAt isFact target carried ∧ d.literals.length ≤ c.literals.length ∧
      ∀ a, .negative a ∈ c.literals → ∃ b, .negative b ∈ d.literals ∧
        b.predicate = a.predicate ∧ b.replace carried = a.replace image := by
  obtain ⟨σ, rfl, carries⟩ := isCopy
  obtain ⟨carried, factors⟩ := carries image
  refine ⟨carried, ?_, length_apply_le σ c, fun a mem => ⟨a.apply σ, ?_, rfl, factors _ mem⟩⟩
  · exact leads.instantiate (fun literal => mem_literals_apply) (nodup_apply leads.nodup)
      (fun _ mem => mem) factors (fun _ mem => mem) (fun _ mem => .inl mem)
  · exact mem_literals_apply.mpr ⟨_, mem, rfl⟩

theorem LeadsTo.copy (leads : c.LeadsTo isFact target) (isCopy : d.IsCopyOf c) :
    d.LeadsTo isFact target := by
  obtain ⟨image, leadsAt⟩ := leads
  obtain ⟨carried, copyLeads, -⟩ := leadsAt.copy isCopy
  exact ⟨carried, copyLeads⟩

/-- A copy of a clause that asks for an atom asks for it as well. -/
theorem AsksFor.copy (asks : c.AsksFor target) (isCopy : d.IsCopyOf c) : d.AsksFor target := by
  obtain ⟨a, image, single, isTarget⟩ := asks
  obtain ⟨σ, rfl, carries⟩ := isCopy
  obtain ⟨carried, factors⟩ := carries image
  refine ⟨a.apply σ, carried, literals_apply_of_eq_singleton single, ?_⟩
  exact (factors (.negative a) (by simp [single])).trans isTarget

theorem AsksFor.mentions_iff (asks : c.AsksFor target) :
    c.mentions p = true ↔ p = target.predicate := by
  obtain ⟨a, image, single, rfl⟩ := asks
  simp [mentions, single, Literal.negative, Atom.replace, eq_comm]

theorem AsksFor.hasLiteralOn_negative (asks : c.AsksFor target) :
    c.hasLiteralOn target.predicate .negative = true := by
  obtain ⟨a, image, single, rfl⟩ := asks
  simp [hasLiteralOn, single, isOn, Literal.negative, Atom.replace]

/-- A clause that leads to an atom and has no conditions is the atom. -/
theorem LeadsTo.eq_fact (leads : c.LeadsTo isFact target)
    (unconditional : ∀ a, .negative a ∉ c.literals) : c = fact target := by
  obtain ⟨image, leadsAt⟩ := leads
  have only (other : Literal Atom) (mem : other ∈ c.literals) : other = .positive target := by
    obtain ⟨a, sign⟩ := other
    cases sign with
    | negative => exact absurd mem (unconditional a)
    | positive =>
        -- Nothing has to be put in, so the literal is the atom already.
        have isTarget := leadsAt.determined .var (fun b bMem => absurd bMem (unconditional b)) a mem
        have sameArgs : a.args.map (Term.replace .var) = a.args := by
          rw [List.map_congr_left fun t _ => Term.replace_self t, List.map_id']
        rw [Atom.replace, sameArgs] at isTarget
        exact congrArg Literal.positive isTarget
  obtain ⟨a, mem⟩ := leadsAt.conclusion
  exact congrArg Clause.mk (eq_singleton leadsAt.nodup (only _ mem ▸ mem) only)

/-! ## Resolvents -/

/-- The other literals of the right clause, when a fact is resolved with the literal
at a place. -/
theorem exists_attempt_of_fact {b : Atom} (mem : .negative b ∈ c.literals)
    (aPredicate : a.predicate = p) (bPredicate : b.predicate = p) :
    ∃ place, c.literals[place]? = some (.negative b) ∧
      (⟨a, b, c.without place, a.unify b⟩ : Attempt) ∈ (fact a).attempts p c := by
  obtain ⟨place, found⟩ := List.mem_iff_getElem?.mp mem
  refine ⟨place, found, mem_attempts.mpr ⟨a, b, 0, place, rfl, found, aPredicate, bPredicate, ?_⟩⟩
  rfl

/-- Resolving a clause with the fact that one of its conditions becomes gives a
smaller clause that leads to the same atom. -/
theorem LeadsAt.exists_resolvent {signature : Signature} (proper : signature.IsProper) {b : Atom}
    (ground : a.isGround = true) (factOver : (fact a).IsOver signature)
    (isOver : c.IsOver signature) (vars : ∀ x ∈ c.vars, x ∈ signature.canonical)
    (leads : c.LeadsAt isFact target image) (mem : .negative b ∈ c.literals)
    (onPredicate : b.predicate = p) (becomes : b.replace image = a) :
    ∃ r ∈ Attempt.resolvents signature ((fact a).attempts p c),
      r.LeadsTo isFact target ∧ r.literals.length < c.literals.length := by
  have aPredicate : a.predicate = p := (congrArg Atom.predicate becomes).symm.trans onPredicate
  obtain ⟨place, found, attemptMem⟩ := exists_attempt_of_fact mem aPredicate onPredicate
  obtain ⟨σ, unified, factors⟩ :=
    Atom.exists_unify ((Atom.replace_of_isGround ground image).trans becomes.symm)
  have resolved : Attempt.resolvent? ⟨a, b, c.without place, a.unify b⟩ =
      some ((ofList (c.without place)).apply σ) := by
    rw [Attempt.resolvent?, unified, Option.map_some]
  have isFactNow : b.apply σ = a := by
    rw [← Atom.apply_eq_of_unify unified (factOver (.positive a) (by simp [fact]))
      (isOver (.negative b) mem), Atom.apply_of_isGround ground]
  -- The condition is gone, since it has become the fact whatever else is put in.
  have instanceLeads : ((ofList (c.without place)).apply σ).LeadsAt isFact target image := by
    refine @LeadsAt.instantiate isFact target c _ image image σ (c.without place) leads
      (fun literal => ?_) (nodup_apply (Sorted.isIncreasing_ofList _).nodup)
      (fun _ => mem_of_mem_without) (fun literal _ => ?_) (fun e eMem => ?_) (fun e eMem => ?_)
    · simp only [mem_literals_apply, ofList, Sorted.mem_ofList]
    · rw [Atom.replace_apply]
      exact Atom.replace_congr fun v _ => factors v
    · exact (eq_or_mem_without found eMem).resolve_left
        (by simp [Literal.positive, Literal.negative])
    · rcases eq_or_mem_without found eMem with same | stays
      · cases same
        refine .inr fun other => ?_
        rw [isFactNow, Atom.replace_of_isGround ground, becomes]
      · exact .inl stays
  have groundVars : (fact a).vars = [] := vars_of_isGround (isGround_fact ground)
  have isCopy := normalize_isCopyOf proper fun x xMem =>
    vars x ((Attempt.mem_vars_of_resolvent attemptMem resolved xMem).resolve_left
      (by simp [groundVars]))
  refine ⟨_, List.mem_filterMap.mpr ⟨_, attemptMem, by rw [resolved]; rfl⟩,
    LeadsTo.copy ⟨image, instanceLeads⟩ isCopy, ?_⟩
  have bound : place < c.literals.length := (List.getElem?_eq_some_iff.mp found).1
  have fewer : (c.without place).length + 1 = c.literals.length := by
    rw [without, List.length_eraseIdx_of_lt bound]
    omega
  have smaller := Nat.le_trans (length_apply_le σ _) (length_ofList_le (c.without place))
  have renamed := length_apply_le (signature.renaming 0
    ((ofList (c.without place)).apply σ).vars) ((ofList (c.without place)).apply σ)
  exact Nat.lt_of_le_of_lt (Nat.le_trans renamed smaller) (by omega)

/-- An atom and a clause that asks for it refute each other, and the terms of the
atom are the answer. -/
theorem AsksFor.exists_attempt (asks : c.AsksFor target) (ground : target.isGround = true) :
    ∃ attempt ∈ (fact target).attempts target.predicate c,
      attempt.isRefutation = true ∧ attempt.tuple? = some target.args := by
  obtain ⟨a, image, single, isTarget⟩ := asks
  have mem : .negative a ∈ c.literals := by simp [single]
  have onPredicate : a.predicate = target.predicate := by rw [← isTarget, Atom.replace]
  obtain ⟨place, found, attemptMem⟩ := exists_attempt_of_fact mem rfl onPredicate
  obtain ⟨σ, unified, -⟩ :=
    Atom.exists_unify ((Atom.replace_of_isGround ground image).trans isTarget.symm)
  have nothingElse : c.without place = [] := by
    have bound := (List.getElem?_eq_some_iff.mp found).1
    rw [single, List.length_singleton, Nat.lt_one_iff] at bound
    rw [without, single, bound]
    rfl
  refine ⟨_, attemptMem, ?_, ?_⟩
  · have noLiteral := length_apply_le σ (ofList [])
    rw [Attempt.isRefutation, Attempt.resolvent?, unified, nothingElse, Option.map_some,
      Option.any_some, isEmpty, List.isEmpty_iff_length_eq_zero]
    exact Nat.le_zero.mp (Nat.le_trans noLiteral (length_ofList_le []))
  · have unchanged := congrArg Atom.args (Atom.apply_of_isGround ground σ)
    rw [Attempt.tuple?, unified, Option.map_some]
    exact congrArg some unchanged

/-- Another predicate than that of the atom stands in conditions only. -/
theorem LeadsTo.hasLiteralOn_negative {p : PredicateSymbol} (notTarget : p ≠ target.predicate)
    (leads : c.LeadsTo isFact target) (mentioned : c.mentions p = true) :
    c.hasLiteralOn p .negative = true := by
  obtain ⟨image, leadsAt⟩ := leads
  obtain ⟨⟨b, sign⟩, bMem, onPredicate⟩ := List.any_eq_true.mp mentioned
  have isIt : b.predicate = p := of_decide_eq_true onPredicate
  cases sign with
  | positive => exact absurd (isIt.symm.trans (leadsAt.predicate_eq bMem)) notTarget
  | negative => exact List.any_eq_true.mpr ⟨_, bMem, by simp [isOn, isIt]⟩

/-- A clause that leads to an atom is not empty and no tautology, so a resolvent of
this kind is kept or goes back to the bucket. -/
theorem LeadsTo.fate_eq (notTarget : p ≠ target.predicate) (leads : c.LeadsTo isFact target) :
    c.fate p false = .kept ∨
      (c.fate p false = .returned ∧ c.hasLiteralOn p .negative = true) := by
  have onNegative := @LeadsTo.hasLiteralOn_negative isFact target c p notTarget leads
  obtain ⟨image, leadsAt⟩ := leads
  have notTautology : c.isTautology = false := by
    rw [Bool.eq_false_iff]
    intro isTautology
    -- All literals are false where exactly the other predicates are true.
    obtain ⟨⟨a, sign⟩, mem, isTrue⟩ :=
      @isTrue_of_isTautology c (fun a => a.predicate ≠ target.predicate) isTautology
    cases sign with
    | positive => exact isTrue (leadsAt.predicate_eq mem)
    | negative => exact isTrue (leadsAt.conditions a mem).1
  obtain ⟨a, mem⟩ := leadsAt.conclusion
  have notEmpty : c.isEmpty = false := by
    rw [isEmpty, List.isEmpty_eq_false_iff]
    exact List.ne_nil_of_mem mem
  unfold fate
  simp only [notEmpty, notTautology, Bool.false_eq_true, if_false]
  cases mentioned : c.mentions p with
  | false => exact .inl rfl
  | true => exact .inr ⟨rfl, onNegative mentioned⟩

end Clause

end Entailment.FirstOrder
