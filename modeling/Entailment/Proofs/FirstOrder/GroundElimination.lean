import Entailment.Proofs.FirstOrder.GroundResolution
import Entailment.Proofs.FirstOrder.Saturation

/-!
# Eliminating a predicate from ground clauses

An elimination that is not cut short saturates its bucket: every pair of
different clauses, one with a positive and one with a negative literal on the
predicate, has been tried, and every resolvent is accounted for.  It was empty
and the search is refuted, it was a tautology, it has joined the bucket on both
sides where it belongs, or it has been kept.

If the empty clause was not derived, truth values for the other predicates that
make the kept resolvents true extend to the predicate that is eliminated.

No answers are collected and nothing limits the time and the memory.
-/

namespace Entailment.FirstOrder

open Monitored (returns_bind)

/-- A property of ground clauses that their resolvents on a predicate inherit. -/
structure Clause.IsInherited (p : PredicateSymbol) (signature : Signature)
    (property : Clause → Prop) : Prop where
  isGroundOver : ∀ {c}, property c → c.IsGroundOver signature
  resolvent : ∀ {c d r}, property c → property d → GroundResolvent p c d r → property r

namespace Elimination

variable {p : PredicateSymbol} {sign : Sign} {c r left right : Clause} {state after : Elimination}

/-- The state of an elimination of a predicate from ground clauses with a
property, without a query for answers. -/
structure IsRegular (p : PredicateSymbol) (signature : Signature) (property : Clause → Prop)
    (state : Elimination) : Prop where
  answers : state.findings.answers = none
  signature : state.findings.signature = signature
  clause : ∀ sign, ∀ c ∈ state.side sign, property c ∧ c.hasLiteralOn p sign = true
  bothSides : ∀ sign other c, c ∈ state.side sign → c.hasLiteralOn p other = true →
    c ∈ state.side other
  kept : ∀ c ∈ state.kept, property c ∧ c.mentions p = false ∧ c ≠ .empty
  refuted : state.findings.refuted = true → property .empty

variable {signature : Signature} {property : Clause → Prop} {setup : Setup}

theorem IsRegular.withResolvent (regular : state.IsRegular p signature property)
    (good : property r) :
    (state.withResolvent p false left right r).IsRegular p signature property := by
  have fateSpec := r.fate_spec p false
  obtain ⟨-, -, sameAnswers, sameSignature, -⟩ :=
    @withResolvent_unchanged p false r left right state
  constructor
  · rw [sameAnswers, regular.answers]
  · rw [sameSignature, regular.signature]
  · intro sign c mem
    rcases mem_side_withResolvent.mp mem with old | ⟨rfl, -, onSide⟩
    · exact regular.clause sign c old
    · exact ⟨good, onSide⟩
  · intro sign other c mem onSide
    rw [mem_side_withResolvent] at mem ⊢
    rcases mem with old | ⟨rfl, fate, -⟩
    · exact .inl (regular.bothSides sign other c old onSide)
    · exact .inr ⟨rfl, fate, onSide⟩
  · intro c mem
    rcases mem_kept_withResolvent.mp mem with old | ⟨rfl, fate⟩
    · exact regular.kept c old
    · rw [fate] at fateSpec
      exact ⟨good, fateSpec.1, fateSpec.2.2⟩
  · intro refuted
    rcases refuted_withResolvent.mp refuted with old | fate
    · exact regular.refuted old
    · rw [fate] at fateSpec
      exact fateSpec ▸ good

/-- How an elimination without limits can be halted: at a refutation, or at the
cap. -/
def StoppedWith (p : PredicateSymbol) (signature : Signature) (property : Clause → Prop)
    (halt : Halt) (state : Elimination) : Prop :=
  (halt = .refuted ∧ property .empty) ∨
    (halt = .capped ∧ state.IsRegular p signature property ∧ state.findings.truncated = true)

/-- Taking a resolvent puts it where it belongs. -/
theorem IsRegular.absorb {outcome : Outcome Elimination}
    (regular : state.IsRegular p signature property) (good : property r)
    (returned : (absorb setup p left right r state).Returns outcome) :
    outcome.Ends (fun after => after.IsRegular p signature property ∧
      Advances setup state after ∧ after.Accounts p false r)
      (StoppedWith p signature property) := by
  have collecting : state.findings.collects p = false := by
    rw [Findings.collects, regular.answers, Option.any_none]
  have placed := @IsRegular.withResolvent p r left right state signature property regular good
  rcases absorb_cases collecting returned with ⟨rfl, -, isRefutation⟩ | ⟨rfl, -⟩ | ⟨rfl, below⟩
  · exact .inl ⟨rfl, placed.refuted (refuted_withResolvent.mpr (.inr isRefutation))⟩
  · exact .inr ⟨rfl, { placed with }, rfl⟩
  · exact ⟨placed, advances_withResolvent below, accounts_withResolvent⟩

/-! ## All pairs -/

/-- Every resolvent of two clauses is where it belongs. -/
def AccountsFor (p : PredicateSymbol) (pair : Clause × Clause) (state : Elimination) : Prop :=
  ∀ r, Clause.GroundResolvent p pair.1 pair.2 r → state.Accounts p false r

/-- Resolving two clauses accounts for their resolvents. -/
theorem IsRegular.resolve (inherited : Clause.IsInherited p signature property)
    {c d : Clause} {outcome : Outcome Elimination}
    (regular : state.IsRegular p signature property) (cGood : property c) (dGood : property d)
    (returned : (resolve setup p c d state).Returns outcome) :
    outcome.Ends (fun after => after.IsRegular p signature property ∧
      Advances setup state after ∧ after.AccountsFor p (c, d))
      (StoppedWith p signature property) := by
  have cGround := inherited.isGroundOver cGood
  have dGround := inherited.isGroundOver dGood
  simp only [Elimination.resolve,
    Clause.renameApart_of_isGround cGround.isGround dGround.isGround, returns_bind] at returned
  obtain ⟨attempted, attemptsReturned, returned⟩ := returned
  cases Findings.eq_of_noQuery regular.answers attemptsReturned
  have mem_iff {r : Clause} := @Clause.mem_resolvents_iff signature p c d r cGround dGround
  have gathered : outcome.Ends (fun after =>
      (after.IsRegular p signature property ∧ Advances setup state after) ∧
        ∀ r ∈ Attempt.resolvents state.findings.signature (c.attempts p d),
          after.Accounts p false r)
      (StoppedWith p signature property) := by
    refine forEach_gathers (fun r mem during outcome invariant taken => ?_)
      ⟨regular, .refl setup state⟩ returned
    rw [regular.signature, mem_iff] at mem
    have absorbed := invariant.1.absorb (inherited.resolvent cGood dGood mem) taken
    refine absorbed.imp fun ⟨afterRegular, advances, accounts⟩ => ?_
    exact ⟨⟨afterRegular, invariant.2.trans advances⟩, accounts,
      fun _ earlier => advances.grows.accounts earlier⟩
  refine gathered.imp fun ⟨⟨afterRegular, advances⟩, accounts⟩ => ⟨afterRegular, advances, ?_⟩
  intro r resolvent
  exact accounts r (by rwa [regular.signature, mem_iff])

theorem IsRegular.nextRound (regular : state.IsRegular p signature property) :
    state.nextRound.IsRegular p signature property := by
  refine { regular with clause := fun sign c mem => ?_, bothSides := fun sign other c mem => ?_ }
  · exact regular.clause sign c (mem_side_nextRound.mp mem)
  · rw [mem_side_nextRound] at mem ⊢
    exact regular.bothSides sign other c mem

/-- An elimination without limits from ground clauses accounts for the resolvents
of every pair that it tries. -/
theorem explores_of_isInherited (inherited : Clause.IsInherited p signature property)
    (unlimited : setup.config.limits = .unlimited) :
    Explores setup p (IsRegular p signature property) (AccountsFor p)
      (StoppedWith p signature property) where
  lasts grows accounts r resolvent := grows.accounts (accounts r resolvent)
  nextRound := IsRegular.nextRound
  step {pair state outcome} regular leftMem rightMem returned := by
    have leftGood := (regular.clause .positive _ (mem_side_iff.mpr (.inl leftMem))).1
    have rightGood := (regular.clause .negative _ (mem_side_iff.mpr (.inl rightMem))).1
    have noted : IsRegular p signature property { state with tried := state.tried.push pair } :=
      { regular with }
    have resolved := noted.resolve inherited leftGood rightGood
      (resolve_of_tryPair unlimited returned)
    exact resolved.imp fun ⟨afterRegular, advances, accounts⟩ =>
      ⟨afterRegular, advances_tried advances, accounts⟩

/-- An elimination from ground clauses that came to its end: every resolvent of
two different clauses of the bucket is accounted for. -/
abbrev IsExhausted (p : PredicateSymbol) (signature : Signature) (property : Clause → Prop) :
    Elimination → Elimination → Prop :=
  IsComplete (IsRegular p signature property) (AccountsFor p)

/-! ## Truth values for the predicate -/

/-- The clauses of a complete elimination that is not refuted are saturated. -/
theorem IsExhausted.areSaturated {start : Elimination} {truth : Atom → Prop}
    (inherited : Clause.IsInherited p signature property)
    (complete : IsExhausted p signature property start state)
    (notRefuted : state.findings.refuted = false) (keptTrue : ∀ c ∈ state.kept, c.IsTrue truth) :
    Clause.AreSaturated p truth (state.side .positive ++ state.side .negative) := by
  have exists_side {c : Clause} (mem : c ∈ state.side .positive ++ state.side .negative) :
      ∃ sign, c ∈ state.side sign := by
    rcases List.mem_append.mp mem with mem | mem
    · exact ⟨.positive, mem⟩
    · exact ⟨.negative, mem⟩
  have onSide {c : Clause} {sign : Sign} {place : Nat} {a : Atom}
      (mem : c ∈ state.side .positive ++ state.side .negative)
      (found : c.literals[place]? = some ⟨a, sign⟩) (onPredicate : a.predicate = p) :
      c ∈ state.side sign := by
    obtain ⟨other, mem⟩ := exists_side mem
    refine complete.keeps.bothSides other sign c mem (List.any_eq_true.mpr
      ⟨_, List.mem_of_getElem? found, ?_⟩)
    simp [Clause.isOn, onPredicate]
  constructor
  · intro c mem
    obtain ⟨sign, mem⟩ := exists_side mem
    exact (inherited.isGroundOver (complete.keeps.clause sign c mem).1).isIncreasing
  · intro c mem
    obtain ⟨sign, mem⟩ := exists_side mem
    exact Store.mentions_iff.mpr ⟨sign, (complete.keeps.clause sign c mem).2⟩
  · intro c cMem d dMem different r resolvent
    have isPair : c ∈ state.side .positive ∧ d ∈ state.side .negative := by
      cases resolvent with
      | intro a place otherPlace onPredicate found otherFound =>
          exact ⟨onSide cMem found onPredicate, onSide dMem otherFound onPredicate⟩
    have accounts := complete.tried c isPair.1 d isPair.2 different r resolvent
    have fateSpec := r.fate_spec p false
    unfold Accounts at accounts
    cases fate : r.fate p false with
    | refutation =>
        rw [fate] at accounts
        simp [notRefuted] at accounts
    | tautology =>
        rw [fate] at fateSpec
        exact .inl fateSpec
    | disjunctiveAnswer =>
        rw [fate] at fateSpec
        simp at fateSpec
    | returned =>
        rw [fate] at accounts fateSpec
        obtain ⟨sign, onIt⟩ := Store.mentions_iff.mp fateSpec.2
        have mem := accounts sign onIt
        cases sign with
        | positive => exact .inr (.inr (List.mem_append_left _ mem))
        | negative => exact .inr (.inr (List.mem_append_right _ mem))
    | kept =>
        rw [fate] at accounts fateSpec
        exact .inr (.inl ⟨fateSpec.1, keptTrue r accounts⟩)

/-- Where the kept resolvents are true, the clauses of the bucket can be made
true by other truth values for the predicate. -/
theorem IsExhausted.exists_isTrue {start : Elimination} {truth : Atom → Prop}
    (inherited : Clause.IsInherited p signature property)
    (complete : IsExhausted p signature property start state)
    (notRefuted : state.findings.refuted = false) (keptTrue : ∀ c ∈ state.kept, c.IsTrue truth) :
    ∃ extended : Atom → Prop, (∀ a, a.predicate ≠ p → (extended a ↔ truth a)) ∧
      ∀ sign, ∀ c ∈ start.side sign, c.IsTrue extended := by
  obtain ⟨extended, agrees, allTrue⟩ :=
    (complete.areSaturated inherited notRefuted keptTrue).exists_isTrue
  refine ⟨extended, agrees, fun sign c mem => allTrue c ?_⟩
  have stillThere := complete.grows.side sign c mem
  cases sign with
  | positive => exact List.mem_append_left _ stillThere
  | negative => exact List.mem_append_right _ stillThere

end Elimination

end Entailment.FirstOrder
