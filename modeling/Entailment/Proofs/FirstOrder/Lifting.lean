import Mathlib.Data.List.Permutation
import Entailment.Proofs.FirstOrder.Copies
import Entailment.Proofs.FirstOrder.UnificationRules

/-!
# The lifting of resolution

A resolvent of two clauses is made of copies without common variables: a positive
literal of one and a negative literal of the other are unified in the most general
way, and the instances of all other literals are joined.

Whatever is put in for the variables of the two clauses is put in for the variables
of their copies at once, since no variable is in both.  If it makes the two literals
complementary then it factors through the unifier of the copies, and what is left of
the two instances is an instance of the resolvent.
-/

namespace Entailment.FirstOrder

universe u

/-- A replacement of some variables is a substitution. -/
theorem Substitution.exists_image_eq (vars : List Variable) (image : Variable → Term) :
    ∃ σ : Substitution, ∀ v ∈ vars, σ.image v = image v := by
  induction vars with
  | nil => exact ⟨.empty, by simp⟩
  | cons w rest ih =>
      obtain ⟨σ, agrees⟩ := ih
      refine ⟨σ.insert w (image w), fun v mem => ?_⟩
      rw [image_insert]
      split
      · rename_i same
        rw [same]
      · rename_i different
        exact agrees v ((List.mem_cons.mp mem).resolve_left (Ne.symm different))

namespace Clause

variable {c d copy : Clause} {chosen literal : Literal Atom}

/-- What becomes of the literals of a clause other than a chosen one. -/
def othersUnder (instantiate : Atom → Atom) (chosen : Literal Atom) (c : Clause) :
    List (Literal Atom) :=
  (c.literals.filter (· ≠ chosen)).map (Literal.map instantiate)

/-- A clause that two clauses are resolved to, the first providing the positive
literal. -/
inductive ResolventOf (c d : Clause) : Clause → Prop
  | intro {left right r : Clause} {a b : Atom} {σ : Substitution} (leftCopy : left.IsCopyOf c)
      (rightCopy : right.IsCopyOf d) (apart : ∀ x ∈ left.vars, x ∉ right.vars)
      (positive : .positive a ∈ left.literals) (negative : .negative b ∈ right.literals)
      (mostGeneral : σ.IsMostGeneral fun u => a.apply u = b.apply u)
      (isCopy : r.IsCopyOf
        (ofList (left.othersUnder (Atom.apply σ) (.positive a) ++
          right.othersUnder (Atom.apply σ) (.negative b)))) :
      ResolventOf c d r

theorem mem_othersUnder {instantiate : Atom → Atom} :
    literal ∈ c.othersUnder instantiate chosen ↔
      ∃ original ∈ c.literals, original ≠ chosen ∧ original.map instantiate = literal := by
  simp [othersUnder, and_assoc]

/-- What is left of a clause without repetitions when the literal at a place is taken
out: the literals other than that one. -/
theorem mem_without_iff (nodup : c.literals.Nodup) {place : Nat}
    (found : c.literals[place]? = some chosen) :
    literal ∈ c.without place ↔ literal ∈ c.literals ∧ literal ≠ chosen := by
  obtain ⟨bound, isChosen⟩ := List.getElem?_eq_some_iff.mp found
  have erased : c.without place = c.literals.erase chosen := by
    rw [without, ← isChosen, nodup.erase_getElem]
  rw [erased, nodup.mem_erase_iff, and_comm]

/-- Joining what is left of two clauses and instantiating it is joining the
instances. -/
theorem apply_ofList_without (cNodup : c.literals.Nodup) (dNodup : d.literals.Nodup)
    {place otherPlace : Nat} {otherChosen : Literal Atom} (found : c.literals[place]? = some chosen)
    (otherFound : d.literals[otherPlace]? = some otherChosen) (σ : Substitution) :
    (ofList (c.without place ++ d.without otherPlace)).apply σ =
      ofList (c.othersUnder (Atom.apply σ) chosen ++
        d.othersUnder (Atom.apply σ) otherChosen) := by
  have increasing :
      Sorted.IsIncreasing (ofList (c.without place ++ d.without otherPlace)).literals :=
    Sorted.isIncreasing_ofList _
  rw [apply_eq_ofList increasing]
  refine congrArg Clause.mk (Sorted.ofList_eq_of_mem_iff fun literal => ?_)
  simp only [ofList, List.mem_map, Sorted.mem_ofList, List.mem_append, mem_othersUnder,
    mem_without_iff cNodup found, mem_without_iff dNodup otherFound, or_and_right, exists_or,
    and_assoc]

/-! ## Copies without common variables -/

/-- Clauses that are renamed apart have no variable in common. -/
theorem not_mem_vars_renameApart {signature : Signature} (proper : signature.IsProper)
    {x : Variable} (mem : x ∈ (c.renameApart d signature).1.vars) :
    x ∉ (c.renameApart d signature).2.1.vars := by
  intro otherMem
  obtain ⟨first, firstEnough⟩ := signature.reserveCanonical_spec (0 + c.vars.length)
  obtain ⟨second, secondEnough⟩ :=
    (signature.reserveCanonical (0 + c.vars.length)).reserveCanonical_spec
      (0 + c.vars.length + d.vars.length)
  obtain ⟨index, -, bound, isIt⟩ := exists_of_mem_vars_renameFrom mem
  obtain ⟨otherIndex, lower, otherBound, isOther⟩ := exists_of_mem_vars_renameFrom otherMem
  have old := Nat.lt_of_lt_of_le bound firstEnough
  rw [isIt, ← second.grows.canonicalVariable old] at isOther
  have same := (second.proper (first.proper proper)).canonicalVariable_inj
    (Nat.lt_of_lt_of_le old second.grows.canonicalSize)
    (Nat.lt_of_lt_of_le otherBound secondEnough) isOther
  omega

/-- A clause has under a replacement the instances that another clause has under
another replacement, literal by literal. -/
def MatchedBy (carried : Variable → Term) (copy : Clause) (image : Variable → Term) (c : Clause) :
    Prop :=
  ∀ a sign, ⟨a, sign⟩ ∈ c.literals → ∃ b, ⟨b, sign⟩ ∈ copy.literals ∧
    b.replace carried = a.replace image ∧
      ∀ literal, literal ∈ copy.othersUnder (Atom.replace carried) ⟨b, sign⟩ ↔
        literal ∈ c.othersUnder (Atom.replace image) ⟨a, sign⟩

/-- Copying keeps different literals different. -/
theorem eq_of_map_apply_eq {σ : Substitution} {back : Variable → Term}
    (inverse : ∀ literal ∈ c.literals, (literal.atom.apply σ).replace back = literal.atom.replace
      .var) {other : Literal Atom} (mem : literal ∈ c.literals) (otherMem : other ∈ c.literals)
    (same : literal.map (Atom.apply σ) = other.map (Atom.apply σ)) : literal = other := by
  obtain ⟨sameAtom, sameSign⟩ := Literal.mk.inj same
  have atoms : literal.atom.replace .var = other.atom.replace .var := by
    rw [← inverse literal mem, ← inverse other otherMem, sameAtom]
  rw [Atom.replace_self, Atom.replace_self] at atoms
  cases literal
  cases other
  exact congr (congrArg Literal.mk atoms) sameSign

/-- Whatever is put in for the variables of a clause, a copy has the same instance. -/
theorem IsCopyOf.exists_matchedBy (isCopy : copy.IsCopyOf c) (image : Variable → Term) :
    ∃ carried, copy.MatchedBy carried image c := by
  obtain ⟨σ, rfl, carries⟩ := isCopy
  obtain ⟨carried, same⟩ := carries image
  obtain ⟨back, inverse⟩ := carries .var
  have instances (original : Literal Atom) (mem : original ∈ c.literals) :
      (original.map (Atom.apply σ)).map (Atom.replace carried) =
        original.map (Atom.replace image) :=
    congrArg (Literal.mk · original.sign) (same original mem)
  refine ⟨carried, fun a sign mem => ⟨a.apply σ, mem_literals_apply.mpr ⟨_, mem, rfl⟩,
    same _ mem, fun literal => ?_⟩⟩
  simp only [mem_othersUnder, mem_literals_apply]
  constructor
  · rintro ⟨_, ⟨original, originalMem, rfl⟩, different, rfl⟩
    refine ⟨original, originalMem, fun isChosen => different ?_, ?_⟩
    · rw [isChosen, Literal.map]
    · exact (instances original originalMem).symm
  · rintro ⟨original, originalMem, different, rfl⟩
    exact ⟨_, ⟨original, originalMem, rfl⟩,
      fun equal => different (eq_of_map_apply_eq inverse originalMem mem equal),
      instances original originalMem⟩

/-- Only the variables of the copy matter. -/
theorem MatchedBy.congr {carried other image : Variable → Term}
    (isMatched : copy.MatchedBy carried image c) (same : ∀ v ∈ copy.vars, other v = carried v) :
    copy.MatchedBy other image c := by
  have atoms : ∀ literal ∈ copy.literals,
      literal.atom.replace other = literal.atom.replace carried := fun literal mem =>
    Atom.replace_congr fun v vMem => same v (mem_vars_of_mem_atom mem vMem)
  have others (chosen : Literal Atom) : copy.othersUnder (Atom.replace other) chosen =
      copy.othersUnder (Atom.replace carried) chosen :=
    List.map_congr_left fun literal mem =>
      congrArg (Literal.mk · literal.sign) (atoms literal (List.mem_of_mem_filter mem))
  intro a sign mem
  obtain ⟨b, bMem, becomes, rest⟩ := isMatched a sign mem
  exact ⟨b, bMem, (atoms _ bMem).trans becomes, fun literal => by rw [others, rest]⟩

/-- Whatever is put in for the variables of two clauses can be put in at once for the
variables of copies that have none in common. -/
theorem IsCopyOf.exists_joint {left right : Clause} (leftCopy : left.IsCopyOf c)
    (rightCopy : right.IsCopyOf d) (apart : ∀ x ∈ left.vars, x ∉ right.vars)
    (image other : Variable → Term) :
    ∃ joint, left.MatchedBy joint image c ∧ right.MatchedBy joint other d := by
  obtain ⟨carried, leftMatched⟩ := leftCopy.exists_matchedBy image
  obtain ⟨otherCarried, rightMatched⟩ := rightCopy.exists_matchedBy other
  refine ⟨fun x => if x ∈ left.vars then carried x else otherCarried x,
    leftMatched.congr fun x mem => if_pos mem, rightMatched.congr fun x mem => ?_⟩
  exact if_neg fun inLeft => apart x inLeft mem

/-- The instances of a clause are instances of its copies by substitutions. -/
theorem IsCopyOf.exists_instance (isCopy : copy.IsCopyOf c) (image : Variable → Term) :
    ∃ σ : Substitution, ∀ literal, literal ∈ (copy.apply σ).literals ↔
      ∃ original ∈ c.literals, original.map (Atom.replace image) = literal := by
  obtain ⟨ρ, isCopied, carries⟩ := isCopy
  obtain ⟨carried, same⟩ := carries image
  obtain ⟨σ, agrees⟩ := Substitution.exists_image_eq copy.vars carried
  have instances : ∀ original ∈ c.literals, (original.map (Atom.apply ρ)).map (Atom.apply σ) =
      original.map (Atom.replace image) := by
    intro original mem
    have copiedMem : original.map (Atom.apply ρ) ∈ copy.literals :=
      isCopied ▸ mem_literals_apply.mpr ⟨original, mem, rfl⟩
    refine congrArg (Literal.mk · original.sign) ?_
    rw [← same original mem, Atom.apply_eq_replace σ]
    exact Atom.replace_congr fun v vMem => agrees v (mem_vars_of_mem_atom copiedMem vMem)
  refine ⟨σ, fun literal => ?_⟩
  rw [mem_literals_apply]
  constructor
  · rintro ⟨copied, copiedMem, rfl⟩
    rw [isCopied, mem_literals_apply] at copiedMem
    obtain ⟨original, mem, rfl⟩ := copiedMem
    exact ⟨original, mem, (instances original mem).symm⟩
  · rintro ⟨original, mem, rfl⟩
    exact ⟨original.map (Atom.apply ρ), isCopied ▸ mem_literals_apply.mpr ⟨original, mem, rfl⟩,
      instances original mem⟩

/-- What is left of two clauses, instantiated by a substitution that a replacement
factors through, has the same instance under the replacement. -/
theorem mem_othersUnder_factor {σ : Substitution} {joint : Variable → Term}
    (factors : ∀ v, (σ.image v).replace joint = joint v) :
    (∃ original ∈ c.othersUnder (Atom.apply σ) chosen,
      original.map (Atom.replace joint) = literal) ↔
      literal ∈ c.othersUnder (Atom.replace joint) chosen := by
  have instances (original : Literal Atom) :
      (original.map (Atom.apply σ)).map (Atom.replace joint) =
        original.map (Atom.replace joint) := by
    refine congrArg (Literal.mk · original.sign) ?_
    exact (Atom.replace_apply σ joint original.atom).trans
      (Atom.replace_congr fun v _ => factors v)
  simp only [mem_othersUnder]
  constructor
  · rintro ⟨_, ⟨original, mem, different, rfl⟩, rfl⟩
    exact ⟨original, mem, different, (instances original).symm⟩
  · rintro ⟨original, mem, different, rfl⟩
    exact ⟨_, ⟨original, mem, different, rfl⟩, instances original⟩

/-! ## Resolvents -/

end Clause

/-- Two clauses without repetitions and the copies of them that are renamed apart,
over a proper signature. -/
structure DisjointCopies (c d : Clause) (base : Signature) (left right : Clause)
    (extended : Signature) : Prop extends CopiedApart c d base left right extended where
  apart : ∀ x ∈ left.vars, x ∉ right.vars
  leftNodup : left.literals.Nodup
  rightNodup : right.literals.Nodup

theorem Clause.renameApart_disjointCopies {signature : Signature} {c d : Clause}
    (proper : signature.IsProper) (cOver : c.IsOver signature) (dOver : d.IsOver signature)
    (cNodup : c.literals.Nodup) (dNodup : d.literals.Nodup) :
    DisjointCopies c d signature (c.renameApart d signature).1 (c.renameApart d signature).2.1
      (c.renameApart d signature).2.2 where
  toRenamedApart := renameApart_spec cOver dOver proper.hasCanonical
  proper := (renameApart_spec cOver dOver proper.hasCanonical).gains.proper proper
  leftCopy := (renameApart_isCopyOf proper).1
  rightCopy := (renameApart_isCopyOf proper).2
  apart _ := not_mem_vars_renameApart proper
  leftNodup := nodup_apply cNodup
  rightNodup := nodup_apply dNodup

namespace DisjointCopies

variable {signature extended : Signature} {c d left right : Clause} {p : PredicateSymbol}

/-- The clause that an attempt gives, renamed onto the first canonical variables, is a
copy of it. -/
theorem normalize_isCopyOf (copied : DisjointCopies c d signature left right extended)
    {attempt : Attempt} {r : Clause} (mem : attempt ∈ left.attempts p right)
    (resolved : attempt.resolvent? = some r) : (r.normalize extended).IsCopyOf r :=
  Clause.normalize_isCopyOf copied.proper fun x xMem =>
    (Attempt.mem_vars_of_resolvent mem resolved xMem).elim (copied.leftVars x)
      (copied.rightVars x)

/-- What is found by resolving the copies is a resolvent of the clauses. -/
theorem resolventOf (copied : DisjointCopies c d signature left right extended) {r : Clause}
    (mem : r ∈ Attempt.resolvents extended (left.attempts p right)) : c.ResolventOf d r := by
  obtain ⟨attempt, attemptMem, given⟩ := List.mem_filterMap.mp mem
  obtain ⟨resolvent, resolved, rfl⟩ := Option.map_eq_some_iff.mp given
  have isCopy := copied.normalize_isCopyOf attemptMem resolved
  obtain ⟨a, b, place, otherPlace, σ, found, otherFound, -, -, -, unified, rfl⟩ :=
    Attempt.exists_of_resolvent? attemptMem resolved
  have aMem := List.mem_of_getElem? found
  have bMem := List.mem_of_getElem? otherFound
  have unification := Atom.isUnification_unify (copied.leftOver _ aMem).hasArities
    (copied.rightOver _ bMem).hasArities
  rw [Clause.apply_ofList_without copied.leftNodup copied.rightNodup found otherFound]
    at isCopy ⊢
  exact .intro copied.leftCopy copied.rightCopy copied.apart aMem bMem
    (unification.mostGeneral σ unified) isCopy

/-- Where instances of two clauses can be resolved, what is left of them is an instance
of a resolvent of the clauses. -/
theorem exists_resolvent (copied : DisjointCopies c d signature left right extended) {a b : Atom}
    (aMem : .positive a ∈ c.literals) (bMem : .negative b ∈ d.literals)
    (onPredicate : a.predicate = p) {u v : Substitution} (same : a.apply u = b.apply v) :
    ∃ r ∈ Attempt.resolvents extended (left.attempts p right), ∃ w : Substitution, ∀ literal,
      literal ∈ (r.apply w).literals ↔
        literal ∈ c.othersUnder (Atom.apply u) (.positive a) ∨
          literal ∈ d.othersUnder (Atom.apply v) (.negative b) := by
  obtain ⟨joint, leftMatched, rightMatched⟩ :=
    copied.leftCopy.exists_joint copied.rightCopy copied.apart u.image v.image
  obtain ⟨a', leftMem, aBecomes, leftOthers⟩ := leftMatched a .positive aMem
  obtain ⟨b', rightMem, bBecomes, rightOthers⟩ := rightMatched b .negative bMem
  rw [Atom.apply_eq_replace, Atom.apply_eq_replace] at same
  obtain ⟨σ, unified, factors⟩ :=
    Atom.exists_unify (aBecomes.trans (same.trans bBecomes.symm))
  obtain ⟨place, found⟩ := List.mem_iff_getElem?.mp leftMem
  obtain ⟨otherPlace, otherFound⟩ := List.mem_iff_getElem?.mp rightMem
  have aPredicate : a'.predicate = p := (congrArg Atom.predicate aBecomes).trans onPredicate
  have bPredicate : b'.predicate = p :=
    (congrArg Atom.predicate (bBecomes.trans same.symm)).trans onPredicate
  -- The attempt at the two copied literals succeeds, and its resolvent is copied.
  have attemptMem : ⟨a', b', left.without place ++ right.without otherPlace, a'.unify b'⟩ ∈
      left.attempts p right :=
    Clause.mem_attempts.mpr ⟨a', b', place, otherPlace, found, otherFound, aPredicate,
      bPredicate, rfl⟩
  have resolved : Attempt.resolvent?
      ⟨a', b', left.without place ++ right.without otherPlace, a'.unify b'⟩ =
      some ((Clause.ofList (left.without place ++ right.without otherPlace)).apply σ) := by
    rw [Attempt.resolvent?, unified, Option.map_some]
  obtain ⟨w, instances⟩ :=
    (copied.normalize_isCopyOf attemptMem resolved).exists_instance joint
  refine ⟨_, List.mem_filterMap.mpr ⟨_, attemptMem, by rw [resolved]; rfl⟩, w,
    fun literal => ?_⟩
  rw [instances, Clause.apply_ofList_without copied.leftNodup copied.rightNodup found otherFound]
  simp only [Clause.ofList, Sorted.mem_ofList, List.mem_append, or_and_right, exists_or,
    Clause.mem_othersUnder_factor factors]
  rw [funext (Atom.apply_eq_replace u), funext (Atom.apply_eq_replace v)]
  exact or_congr (leftOthers literal) (rightOthers literal)

end DisjointCopies

/-- Resolving two clauses on a predicate gives clauses that follow from the two, and
gives all most general ones: wherever an instance of a positive literal of the first and
one of a negative literal of the second have the same atom, what is left of the two
instances is an instance of a clause that is given.  The two clauses may have variables
in common, canonical ones or others. -/
theorem resolvents_sound_and_mostGeneral {signature : Signature} (proper : signature.IsProper)
    {c d : Clause} (cOver : c.IsOver signature) (dOver : d.IsOver signature)
    (cIncreasing : Sorted.IsIncreasing c.literals) (dIncreasing : Sorted.IsIncreasing d.literals)
    (p : PredicateSymbol) :
    (∀ r ∈ (c.resolvents p d signature).1, ∀ {D : Type u} (M : Model D),
      M.Satisfies c → M.Satisfies d → M.Satisfies r) ∧
    ∀ a b, .positive a ∈ c.literals → .negative b ∈ d.literals → a.predicate = p →
      b.predicate = p → ∀ u v : Substitution, a.apply u = b.apply v →
        ∃ r ∈ (c.resolvents p d signature).1, ∃ w : Substitution, ∀ literal,
          literal ∈ (r.apply w).literals ↔
            literal ∈ c.othersUnder (Atom.apply u) (.positive a) ∨
              literal ∈ d.othersUnder (Atom.apply v) (.negative b) := by
  have copied :=
    Clause.renameApart_disjointCopies proper cOver dOver cIncreasing.nodup dIncreasing.nodup
  constructor
  · intro r mem D M cSatisfied dSatisfied
    exact (copied.toRenamedApart.resolvent_spec mem).2 M cSatisfied dSatisfied
  · intro a b aMem bMem aPredicate _ u v same
    exact copied.exists_resolvent aMem bMem aPredicate same

/-- The clauses `p(x) | q(x)` and `~p(f(x)) | q(x)` have their variable in common.  At
`p(f(a))` the instances `q(f(a))` and `q(a)` are left, which are one of a resolvent. -/
theorem resolvents_sound_and_mostGeneral_shared :
    let signature : Signature :=
      ⟨#["_1"], #[⟨"f", 1, false⟩, ⟨"a", 0, false⟩], #[⟨"p", 1⟩, ⟨"q", 1⟩], #[⟨0⟩], 0⟩
    let x := Term.var ⟨0⟩
    let a := Term.app ⟨1⟩ []
    let c := Clause.ofList [.positive ⟨⟨0⟩, [x]⟩, .positive ⟨⟨1⟩, [x]⟩]
    let d := Clause.ofList [.negative ⟨⟨0⟩, [.app ⟨0⟩ [x]]⟩, .positive ⟨⟨1⟩, [x]⟩]
    signature.IsProper ∧ c.IsOver signature ∧ d.IsOver signature ∧
      ∃ r ∈ (c.resolvents ⟨0⟩ d signature).1, ∃ w : Substitution, ∀ literal,
        literal ∈ (r.apply w).literals ↔
          literal = .positive ⟨⟨1⟩, [.app ⟨0⟩ [a]]⟩ ∨ literal = .positive ⟨⟨1⟩, [a]⟩ := by
  intro signature x a c d
  have proper : signature.IsProper := by
    refine ⟨by simp [Signature.HasCanonical, signature], by simp [signature], ?_, ?_⟩
    · simp [signature]
    · simp [Signature.HasDistinctFunctions, signature]
  have xOver : x.IsOver signature := .var (by decide)
  have fOver : (Term.app ⟨0⟩ [x]).IsOver signature := .app (by decide) rfl (by simpa using xOver)
  have onX (p : PredicateSymbol) (bound : p.index < 2)
      (unary : (signature.predicateInfo p).arity = 1) : Atom.IsOver signature ⟨p, [x]⟩ :=
    ⟨bound, unary.symm, by simpa using xOver⟩
  have cOver : c.IsOver signature := Clause.isOver_ofList.mpr <| by
    simpa [Literal.positive] using ⟨onX ⟨0⟩ (by decide) rfl, onX ⟨1⟩ (by decide) rfl⟩
  have dOver : d.IsOver signature := Clause.isOver_ofList.mpr <| by
    have fAtom : Atom.IsOver signature ⟨⟨0⟩, [.app ⟨0⟩ [x]]⟩ :=
      ⟨by decide, rfl, by simpa using fOver⟩
    simpa [Literal.positive, Literal.negative] using ⟨fAtom, onX ⟨1⟩ (by decide) rfl⟩
  obtain ⟨r, mem, w, instances⟩ := (resolvents_sound_and_mostGeneral.{0} proper cOver dOver
    (Sorted.isIncreasing_ofList _) (Sorted.isIncreasing_ofList _) ⟨0⟩).2 ⟨⟨0⟩, [x]⟩
    ⟨⟨0⟩, [.app ⟨0⟩ [x]]⟩ (Sorted.mem_ofList.mpr (by simp)) (Sorted.mem_ofList.mpr (by simp))
    rfl rfl (.single ⟨0⟩ (.app ⟨0⟩ [a])) (.single ⟨0⟩ a) (by decide)
  refine ⟨proper, cOver, dOver, r, mem, w, fun literal => (instances literal).trans ?_⟩
  have left : c.othersUnder (Atom.apply (.single ⟨0⟩ (.app ⟨0⟩ [a]))) (.positive ⟨⟨0⟩, [x]⟩) =
      [.positive ⟨⟨1⟩, [.app ⟨0⟩ [a]]⟩] := by
    rw [show c = _ from congrArg Clause.mk (Sorted.ofList_pair rfl)]
    rfl
  have right : d.othersUnder (Atom.apply (.single ⟨0⟩ a)) (.negative ⟨⟨0⟩, [.app ⟨0⟩ [x]]⟩) =
      [.positive ⟨⟨1⟩, [a]⟩] := by
    rw [show d = _ from congrArg Clause.mk (Sorted.ofList_pair rfl)]
    rfl
  rw [left, right, List.mem_singleton, List.mem_singleton]

end Entailment.FirstOrder
