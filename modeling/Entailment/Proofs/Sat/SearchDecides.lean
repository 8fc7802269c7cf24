import Entailment.Proofs.Formula.ClausalTruth
import Entailment.Sat.Search

/-!
# The search decides satisfiability

A partial assignment can be completed when some truth values agree with it and
satisfy the clauses.  Each step of the search keeps this: a unit clause forces its
open literal, a pure literal can be made true without harm to any clause, and a
variable is true or false.

Propagation ends when neither of its steps assigns a variable of the clauses.  Then
the last pass over the clauses has seen the assignment that is returned, and no
clause is false under it.  So a search that finds no open literal has satisfied
every clause.  No step looks up a variable beyond the limit.
-/

namespace Entailment.Sat

namespace Assignment

variable {literals : List (Literal Nat)} {literal : Literal Nat} {v : Nat}

/-- Truth values that agree with the assigned ones. -/
def Agrees (assignment : Assignment) (truth : Nat → Prop) : Prop :=
  ∀ v value, assignment.values[v]? = some value → (truth v ↔ value = true)

/-- The variables of some clauses are within the limit. -/
def Covers (assignment : Assignment) (clauses : List Clause) : Prop :=
  ∀ clause ∈ clauses, ∀ literal ∈ clause, literal.atom ≤ assignment.limit

/-- Some truth values agree with an assignment and satisfy the clauses. -/
def Completable (clauses : List Clause) (assignment : Assignment) : Prop :=
  ∃ truth, assignment.Agrees truth ∧ ClauseSet.Holds truth clauses

variable {assignment : Assignment} {truth : Nat → Prop} {clauses : List Clause}

theorem agrees_start (limit : Nat) (truth : Nat → Prop) : (start limit).Agrees truth := by
  intro v value found
  simp [start] at found

/-- Every assignment agrees with some truth values. -/
theorem exists_agrees (assignment : Assignment) : ∃ truth, assignment.Agrees truth := by
  refine ⟨fun v => assignment.values[v]? = some true, fun v value found => ?_⟩
  simp [found]

theorem isAssigned_eq_false : assignment.isAssigned v = false ↔ assignment.values[v]? = none := by
  simp [isAssigned, ← Bool.not_eq_true]

/-! ## Assigning literals -/

theorem Agrees.assign (agrees : assignment.Agrees truth) (holds : literal.Holds truth) :
    (assignment.assign literal).Agrees truth := by
  intro v value found
  simp only [Assignment.assign, Std.TreeMap.getElem?_insert, Nat.compare_eq_eq] at found
  split at found
  · rename_i isIt
    subst isIt
    obtain ⟨v, sign⟩ := literal
    cases sign with
    | positive =>
        cases found
        simpa [Literal.Holds] using holds
    | negative =>
        cases found
        simpa [Literal.Holds] using holds
  · exact agrees v value found

theorem getElem?_assign_of_ne (different : literal.atom ≠ v) :
    (assignment.assign literal).values[v]? = assignment.values[v]? := by
  simp [assign, Std.TreeMap.getElem?_insert, different]

/-- Forgetting the value of a variable that was open before. -/
theorem Agrees.of_assign (agrees : (assignment.assign literal).Agrees truth)
    (isOpen : assignment.isAssigned literal.atom = false) : assignment.Agrees truth := by
  intro v value found
  have different : literal.atom ≠ v := by
    rintro rfl
    rw [isAssigned_eq_false.mp isOpen] at found
    cases found
  rw [← getElem?_assign_of_ne different] at found
  exact agrees v value found

theorem Agrees.assignAll (agrees : assignment.Agrees truth)
    (holds : ∀ literal ∈ literals, literal.Holds truth) :
    (assignment.assignAll literals).Agrees truth := by
  induction literals generalizing assignment with
  | nil => exact agrees
  | cons literal rest ih =>
      exact ih (agrees.assign (holds literal (List.mem_cons_self ..)))
        fun other mem => holds other (List.mem_cons_of_mem _ mem)

theorem getElem?_assignAll_of_ne (different : ∀ literal ∈ literals, literal.atom ≠ v) :
    (assignment.assignAll literals).values[v]? = assignment.values[v]? := by
  induction literals generalizing assignment with
  | nil => rfl
  | cons literal rest ih =>
      have later := @ih (assignment.assign literal) fun other mem =>
        different other (List.mem_cons_of_mem _ mem)
      exact later.trans (getElem?_assign_of_ne (different literal (List.mem_cons_self ..)))

/-- Forgetting the values of variables that were open before. -/
theorem Agrees.of_assignAll (agrees : (assignment.assignAll literals).Agrees truth)
    (isOpen : ∀ literal ∈ literals, assignment.isAssigned literal.atom = false) :
    assignment.Agrees truth := by
  intro v value found
  have different : ∀ literal ∈ literals, literal.atom ≠ v := by
    rintro literal mem rfl
    rw [isAssigned_eq_false.mp (isOpen literal mem)] at found
    cases found
  rw [← getElem?_assignAll_of_ne different] at found
  exact agrees v value found

theorem limit_assignAll : (assignment.assignAll literals).limit = assignment.limit := by
  induction literals generalizing assignment with
  | nil => rfl
  | cons literal rest ih => exact ih

/-! ## Looking at a clause -/

/-- Within the limit a literal has a value or is open. -/
theorem evaluate_spec (within : literal.atom ≤ assignment.limit) :
    ∃ value?, assignment.evaluate literal = .ok value? ∧
      ∀ value, value? = some value → ∀ truth, assignment.Agrees truth →
        (literal.Holds truth ↔ value = true) := by
  refine ⟨_, if_neg (Nat.not_lt.mpr within), ?_⟩
  rintro value found truth agrees
  obtain ⟨assigned, isValue, rfl⟩ := Option.map_eq_some_iff.mp found
  have atVariable := agrees literal.atom assigned isValue
  obtain ⟨v, sign⟩ := literal
  cases sign with
  | positive => simpa [Literal.Holds] using atVariable
  | negative => simpa [Literal.Holds] using not_congr atVariable

/-- A clause is true when one of its open literals is, or in any case when it has
none to show. -/
theorem openLiterals_holds {clause : Clause}
    (within : ∀ literal ∈ clause, literal.atom ≤ assignment.limit) :
    ∃ openOnes?, assignment.openLiterals clause = .ok openOnes? ∧
      ∀ truth, assignment.Agrees truth → (Disjunction.Holds truth clause ↔
        ∀ openOnes, openOnes? = some openOnes → Disjunction.Holds truth openOnes) := by
  induction clause with
  | nil => exact ⟨some [], rfl, by simp⟩
  | cons literal rest ih =>
      obtain ⟨value?, evaluated, value_iff⟩ :=
        evaluate_spec (within literal (List.mem_cons_self ..))
      obtain ⟨openRest?, restScanned, rest_iff⟩ :=
        ih fun other mem => within other (List.mem_cons_of_mem _ mem)
      have cons_iff (truth : Nat → Prop) (others : Clause) :
          Disjunction.Holds truth (literal :: others) ↔
            literal.Holds truth ∨ Disjunction.Holds truth others := by
        simp [Disjunction.Holds]
      cases value? with
      | some value =>
          cases value with
          | true =>
              refine ⟨none, by simp only [openLiterals, evaluated], fun truth agrees => ?_⟩
              have isTrue := (value_iff true rfl truth agrees).mpr rfl
              simp [cons_iff, isTrue]
          | false =>
              refine ⟨openRest?, by simp only [openLiterals, evaluated, restScanned],
                fun truth agrees => ?_⟩
              have isFalse : ¬literal.Holds truth := by
                simp [value_iff false rfl truth agrees]
              rw [cons_iff, ← rest_iff truth agrees]
              exact or_iff_right isFalse
      | none =>
          cases openRest? with
          | none =>
              refine ⟨none, by simp only [openLiterals, evaluated, restScanned],
                fun truth agrees => ?_⟩
              have restHolds := (rest_iff truth agrees).mpr (by simp)
              simp [cons_iff, restHolds]
          | some openRest =>
              refine ⟨some (literal :: openRest),
                by simp only [openLiterals, evaluated, restScanned], fun truth agrees => ?_⟩
              have restHolds := rest_iff truth agrees
              simp only [Option.some.injEq, forall_eq'] at restHolds ⊢
              rw [cons_iff, cons_iff, restHolds]

/-- All open literals of the clauses without a true literal are found. -/
theorem exists_allOpenLiterals (covers : assignment.Covers clauses) :
    ∃ openOnes, assignment.allOpenLiterals clauses = .ok openOnes ∧
      ∀ clause ∈ clauses, ∀ own, assignment.openLiterals clause = .ok (some own) →
        ∀ literal ∈ own, literal ∈ openOnes := by
  induction clauses with
  | nil => exact ⟨[], rfl, by simp⟩
  | cons clause rest ih =>
      obtain ⟨own?, scanned, -⟩ := openLiterals_holds (covers clause (List.mem_cons_self ..))
      obtain ⟨openRest, restScanned, inRest⟩ :=
        ih fun other mem => covers other (List.mem_cons_of_mem _ mem)
      refine ⟨own?.getD [] ++ openRest, by simp only [allOpenLiterals, scanned, restScanned], ?_⟩
      intro other mem own otherScanned literal literalMem
      rcases List.mem_cons.mp mem with rfl | later
      · rw [scanned] at otherScanned
        cases otherScanned
        exact List.mem_append_left _ literalMem
      · exact List.mem_append_right _ (inRest other later own otherScanned literal literalMem)

/-! ## Unit clauses -/

theorem holds_cons {clause : Clause} :
    ClauseSet.Holds truth (clause :: clauses) ↔
      Disjunction.Holds truth clause ∧ ClauseSet.Holds truth clauses :=
  List.forall_mem_cons

/-- A pass over unit clauses makes true what every completion makes true. -/
theorem unitPass_spec {pending : List Clause} (covers : assignment.Covers pending) :
    ∃ extended?, assignment.unitPass pending = .ok extended? ∧
      (∀ truth, assignment.Agrees truth → ClauseSet.Holds truth pending →
        ∃ extended, extended? = some extended ∧ extended.Agrees truth) ∧
      ∀ extended, extended? = some extended → extended.limit = assignment.limit ∧
        ∀ truth, extended.Agrees truth → assignment.Agrees truth := by
  induction pending generalizing assignment with
  | nil => exact ⟨some assignment, rfl, fun truth agrees _ => ⟨_, rfl, agrees⟩, by simp⟩
  | cons clause rest ih =>
      have restCovers : assignment.Covers rest := fun other mem =>
        covers other (List.mem_cons_of_mem _ mem)
      obtain ⟨openOnes?, scanned, clause_iff⟩ :=
        openLiterals_holds (covers clause (List.mem_cons_self ..))
      match openOnes?, scanned, clause_iff with
      | some [], scanned, clause_iff =>
          refine ⟨none, by simp only [unitPass, scanned], fun truth agrees holds => ?_, by simp⟩
          have noLiteral := (clause_iff truth agrees).mp (holds_cons.mp holds).1 [] rfl
          simp [Disjunction.Holds] at noLiteral
      | some [literal], scanned, clause_iff =>
          have isOpen := (openLiterals_spec scanned literal (List.mem_cons_self ..)).2.1
          obtain ⟨extended?, passed, forced, extends_⟩ := @ih (assignment.assign literal) restCovers
          refine ⟨extended?, by simp only [unitPass, scanned, passed],
            fun truth agrees holds => ?_, fun extended isExtended => ?_⟩
          · have literalHolds : literal.Holds truth := by
              have oneHolds := (clause_iff truth agrees).mp (holds_cons.mp holds).1 [literal] rfl
              simpa [Disjunction.Holds] using oneHolds
            exact forced truth (agrees.assign literalHolds) (holds_cons.mp holds).2
          · obtain ⟨limit, agrees_of⟩ := extends_ extended isExtended
            exact ⟨limit, fun truth agrees => (agrees_of truth agrees).of_assign isOpen⟩
      | none, scanned, clause_iff =>
          obtain ⟨extended?, passed, forced, extends_⟩ := ih restCovers
          exact ⟨extended?, by simp only [unitPass, scanned, passed],
            fun truth agrees holds => forced truth agrees (holds_cons.mp holds).2, extends_⟩
      | some (_ :: _ :: _), scanned, clause_iff =>
          obtain ⟨extended?, passed, forced, extends_⟩ := ih restCovers
          exact ⟨extended?, by simp only [unitPass, scanned, passed],
            fun truth agrees holds => forced truth agrees (holds_cons.mp holds).2, extends_⟩

/-- A pass that leaves as many open occurrences as there were has changed nothing
and has seen no false clause. -/
theorem unitPass_unchanged {pending : List Clause} {extended : Assignment}
    (passed : assignment.unitPass pending = .ok (some extended))
    (subset : ∀ clause ∈ pending, clause ∈ clauses)
    (notFewer : ¬extended.openCount clauses < assignment.openCount clauses) :
    extended = assignment ∧
      ∀ clause ∈ pending, assignment.openLiterals clause ≠ .ok (some []) := by
  induction pending with
  | nil =>
      cases passed
      exact ⟨rfl, by simp⟩
  | cons clause rest ih =>
      have restSubset : ∀ other ∈ rest, other ∈ clauses := fun other mem =>
        subset other (List.mem_cons_of_mem _ mem)
      unfold unitPass at passed
      split at passed
      · cases passed
      · cases passed
      · rename_i literal scanned
        obtain ⟨literalMem, isOpen, -⟩ := openLiterals_spec scanned literal (List.mem_cons_self ..)
        have fewer := openCount_assign_lt (subset clause (List.mem_cons_self ..)) literalMem rfl
          isOpen
        exact absurd (Nat.lt_of_le_of_lt (openCount_unitPass_le passed clauses) fewer) notFewer
      · rename_i openOnes? notEmpty notUnit scanned
        obtain ⟨unchanged, noneFalse⟩ := ih passed restSubset
        refine ⟨unchanged, fun other mem => ?_⟩
        rcases List.mem_cons.mp mem with rfl | later
        · intro isFalse
          rw [scanned] at isFalse
          exact notEmpty (Except.ok.inj isFalse)
        · exact noneFalse other later

/-! ## Pure literals -/

/-- Truth values changed so that some literals are true. -/
def makeTrue (literals : List (Literal Nat)) (truth : Nat → Prop) (v : Nat) : Prop :=
  .positive v ∈ literals ∨ .negative v ∉ literals ∧ truth v

/-- Literals are made true when none of them is the negation of another. -/
theorem holds_makeTrue (mem : literal ∈ literals) (isPure : literal.negate ∉ literals)
    (truth : Nat → Prop) : literal.Holds (makeTrue literals truth) := by
  obtain ⟨v, sign⟩ := literal
  cases sign with
  | positive => exact .inl mem
  | negative =>
      rintro (positive | ⟨notNegative, -⟩)
      · exact isPure positive
      · exact notNegative mem

/-- A true literal stays true if its negation is not among those made true. -/
theorem holds_makeTrue_of_holds (holds : literal.Holds truth)
    (notDenied : literal.negate ∉ literals) : literal.Holds (makeTrue literals truth) := by
  obtain ⟨v, sign⟩ := literal
  cases sign with
  | positive => exact .inr ⟨notDenied, holds⟩
  | negative =>
      rintro (positive | ⟨-, holdsToo⟩)
      · exact notDenied positive
      · exact holds holdsToo

theorem Agrees.makeTrue (agrees : assignment.Agrees truth)
    (isOpen : ∀ literal ∈ literals, assignment.isAssigned literal.atom = false) :
    assignment.Agrees (makeTrue literals truth) := by
  intro v value found
  have absent (sign : Sign) : ⟨v, sign⟩ ∉ literals := by
    intro mem
    rw [isAssigned_eq_false.mp (isOpen _ mem)] at found
    cases found
  have positive : Literal.positive v ∉ literals := absent .positive
  have negative : Literal.negative v ∉ literals := absent .negative
  simpa [Assignment.makeTrue, positive, negative] using agrees v value found

theorem negate_negate (literal : Literal Nat) : literal.negate.negate = literal := by
  obtain ⟨v, sign⟩ := literal
  cases sign <;> rfl

/-- Making pure literals true keeps a completion: no clause without a true literal
has the negation of a pure literal to lose. -/
theorem purePass_spec (covers : assignment.Covers clauses) :
    ∃ purified, assignment.purePass clauses = .ok purified ∧
      purified.limit = assignment.limit ∧
      (Completable clauses assignment ↔ Completable clauses purified) := by
  obtain ⟨openOnes, scanned, found⟩ := exists_allOpenLiterals covers
  refine ⟨assignment.assignAll (openOnes.filter fun literal => !openOnes.contains literal.negate),
    by simp only [purePass, scanned], limit_assignAll, ?_⟩
  have isPure {literal : Literal Nat}
      (mem : literal ∈ openOnes.filter fun literal => !openOnes.contains literal.negate) :
      literal ∈ openOnes ∧ literal.negate ∉ openOnes := by
    simpa using mem
  generalize (openOnes.filter fun literal => !openOnes.contains literal.negate) = pureOnes
    at isPure
  have isOpen : ∀ literal ∈ pureOnes, assignment.isAssigned literal.atom = false :=
    fun literal mem => (allOpenLiterals_spec scanned literal (isPure mem).1).2.1
  constructor
  · rintro ⟨truth, agrees, holds⟩
    have stillAgrees := agrees.makeTrue isOpen
    refine ⟨makeTrue pureOnes truth, stillAgrees.assignAll fun literal mem =>
      holds_makeTrue mem (fun denied => (isPure mem).2 (isPure denied).1) truth, ?_⟩
    intro clause clauseMem
    obtain ⟨own?, own, clause_iff⟩ := openLiterals_holds (covers clause clauseMem)
    rw [clause_iff _ stillAgrees]
    rintro openHere rfl
    obtain ⟨literal, literalMem, literalHolds⟩ :=
      (clause_iff truth agrees).mp (holds clause clauseMem) openHere rfl
    refine ⟨literal, literalMem, holds_makeTrue_of_holds literalHolds fun denied => ?_⟩
    have notOpen := (isPure denied).2
    rw [negate_negate] at notOpen
    exact notOpen (found clause clauseMem openHere own literal literalMem)
  · rintro ⟨truth, agrees, holds⟩
    exact ⟨truth, agrees.of_assignAll isOpen, holds⟩

/-- A pass over pure literals that leaves as many open occurrences as there were
has changed nothing. -/
theorem purePass_unchanged {purified : Assignment}
    (passed : assignment.purePass clauses = .ok purified)
    (notFewer : ¬purified.openCount clauses < assignment.openCount clauses) :
    purified = assignment := by
  unfold purePass at passed
  split at passed
  · cases passed
  · rename_i openOnes scanned
    cases passed
    cases pureOnes : openOnes.filter fun literal => !openOnes.contains literal.negate with
    | nil => rfl
    | cons literal rest =>
        have literalMem : literal ∈ openOnes := by
          have inPure :
              literal ∈ openOnes.filter fun literal => !openOnes.contains literal.negate :=
            pureOnes ▸ List.mem_cons_self ..
          exact (List.mem_filter.mp inPure).1
        obtain ⟨⟨clause, clauseMem, inClause⟩, isOpen, -⟩ :=
          allOpenLiterals_spec scanned literal literalMem
        have fewer := openCount_assign_lt clauseMem inClause rfl isOpen
        have atMost := openCount_assignAll_le rest (assignment.assign literal) clauses
        rw [pureOnes] at notFewer
        exact absurd (Nat.lt_of_le_of_lt atMost fewer) notFewer

/-! ## Propagation and search -/

theorem Covers.of_limit {other : Assignment} (covers : assignment.Covers clauses)
    (limit : other.limit = assignment.limit) : other.Covers clauses := by
  intro clause clauseMem literal literalMem
  rw [limit]
  exact covers clause clauseMem literal literalMem

/-- What propagation gives: nothing when there is no completion, or else an
assignment with a completion in the same cases, under which no clause is false. -/
structure Propagates (clauses : List Clause) (assignment : Assignment)
    (propagated? : Option Assignment) : Prop where
  failed : propagated? = none → ¬Completable clauses assignment
  limit : ∀ propagated, propagated? = some propagated → propagated.limit = assignment.limit
  completable_iff : ∀ propagated, propagated? = some propagated →
    (Completable clauses assignment ↔ Completable clauses propagated)
  noneFalse : ∀ propagated, propagated? = some propagated →
    ∀ clause ∈ clauses, propagated.openLiterals clause ≠ .ok (some [])

/-- Propagation from an assignment with a completion in the same cases. -/
theorem Propagates.of_iff {other : Assignment} {propagated? : Option Assignment}
    (propagates : Propagates clauses other propagated?)
    (limit : other.limit = assignment.limit)
    (same : Completable clauses assignment ↔ Completable clauses other) :
    Propagates clauses assignment propagated? where
  failed isNone := same.not.mpr (propagates.failed isNone)
  limit propagated isIt := (propagates.limit propagated isIt).trans limit
  completable_iff propagated isIt := same.trans (propagates.completable_iff propagated isIt)
  noneFalse := propagates.noneFalse

/-- A pass over unit clauses keeps completions. -/
theorem completable_iff_of_unitPass (covers : assignment.Covers clauses) {extended : Assignment}
    (passed : assignment.unitPass clauses = .ok (some extended)) :
    extended.limit = assignment.limit ∧
      (Completable clauses assignment ↔ Completable clauses extended) := by
  obtain ⟨extended?, passedToo, forced, extends_⟩ := unitPass_spec covers
  obtain rfl : extended? = some extended := Except.ok.inj (passedToo.symm.trans passed)
  obtain ⟨limit, agrees_of⟩ := extends_ extended rfl
  refine ⟨limit, ?_⟩
  constructor
  · rintro ⟨truth, agrees, holds⟩
    obtain ⟨other, isIt, otherAgrees⟩ := forced truth agrees holds
    cases isIt
    exact ⟨truth, otherAgrees, holds⟩
  · rintro ⟨truth, agrees, holds⟩
    exact ⟨truth, agrees_of truth agrees, holds⟩

/-- Propagation succeeds within the limit. -/
theorem propagate_spec (covers : assignment.Covers clauses) :
    ∃ propagated?, propagate clauses assignment = .ok propagated? ∧
      Propagates clauses assignment propagated? := by
  fun_induction propagate clauses assignment with
  | case1 assignment error failed =>
      obtain ⟨extended?, passed, -⟩ := unitPass_spec covers
      rw [failed] at passed
      cases passed
  | case2 assignment failed =>
      refine ⟨none, rfl, ⟨fun _ => ?_, by simp, by simp, by simp⟩⟩
      rintro ⟨truth, agrees, holds⟩
      obtain ⟨extended?, passed, forced, -⟩ := unitPass_spec covers
      obtain ⟨extended, isIt, -⟩ := forced truth agrees holds
      rw [failed, isIt] at passed
      cases passed
  | case3 assignment extended passed fewer ih =>
      obtain ⟨limit, same⟩ := completable_iff_of_unitPass covers passed
      obtain ⟨propagated?, done, propagates⟩ := ih (covers.of_limit limit)
      exact ⟨propagated?, done, propagates.of_iff limit same⟩
  | case4 assignment extended passed notFewer error failed =>
      obtain ⟨limit, -⟩ := completable_iff_of_unitPass covers passed
      obtain ⟨purified, purePassed, -⟩ := purePass_spec (covers.of_limit limit)
      rw [failed] at purePassed
      cases purePassed
  | case5 assignment extended passed notFewer purified purePassed fewer ih =>
      obtain ⟨limit, same⟩ := completable_iff_of_unitPass covers passed
      obtain ⟨other, purePassedToo, pureLimit, pureSame⟩ := purePass_spec (covers.of_limit limit)
      obtain rfl : other = purified := Except.ok.inj (purePassedToo.symm.trans purePassed)
      obtain ⟨propagated?, done, propagates⟩ := ih (covers.of_limit (pureLimit.trans limit))
      exact ⟨propagated?, done, propagates.of_iff (pureLimit.trans limit) (same.trans pureSame)⟩
  | case6 assignment extended passed notFewer purified purePassed notFewerToo =>
      -- Nothing was assigned in this round, so its passes saw the final assignment.
      obtain ⟨rfl, noneFalse⟩ := unitPass_unchanged passed (fun _ mem => mem) notFewer
      obtain rfl := purePass_unchanged purePassed notFewerToo
      refine ⟨_, rfl, ⟨by simp, ?_, ?_, ?_⟩⟩
      · rintro propagated ⟨⟩
        rfl
      · rintro propagated ⟨⟩
        rfl
      · rintro propagated ⟨⟩
        exact noneFalse

/-- An assignment under which no clause is false and no literal is open has
satisfied all clauses. -/
theorem completable_of_noOpen (covers : assignment.Covers clauses)
    (noneFalse : ∀ clause ∈ clauses, assignment.openLiterals clause ≠ .ok (some []))
    (noBranch : assignment.branchVariable? clauses = .ok none) :
    Completable clauses assignment := by
  obtain ⟨openOnes, scanned, found⟩ := exists_allOpenLiterals covers
  have noOpen : openOnes = [] := by
    simp only [branchVariable?, scanned] at noBranch
    simpa using noBranch
  obtain ⟨truth, agrees⟩ := assignment.exists_agrees
  refine ⟨truth, agrees, fun clause clauseMem => ?_⟩
  obtain ⟨own?, own, clause_iff⟩ := openLiterals_holds (covers clause clauseMem)
  rw [clause_iff truth agrees]
  rintro openHere rfl
  cases openHere with
  | nil => exact absurd own (noneFalse clause clauseMem)
  | cons literal rest =>
      have mem := found clause clauseMem _ own literal (List.mem_cons_self ..)
      rw [noOpen] at mem
      cases mem

/-- A variable is true or false. -/
theorem completable_iff_branch (isOpen : assignment.isAssigned v = false) :
    Completable clauses assignment ↔ Completable clauses (assignment.assign (.positive v)) ∨
      Completable clauses (assignment.assign (.negative v)) := by
  constructor
  · rintro ⟨truth, agrees, holds⟩
    by_cases isTrue : truth v
    · exact .inl ⟨truth, agrees.assign isTrue, holds⟩
    · exact .inr ⟨truth, agrees.assign isTrue, holds⟩
  · rintro (⟨truth, agrees, holds⟩ | ⟨truth, agrees, holds⟩)
    · exact ⟨truth, agrees.of_assign isOpen, holds⟩
    · exact ⟨truth, agrees.of_assign isOpen, holds⟩

/-- The branch variable is open and within the limit. -/
theorem isOpen_of_branchVariable? (branch : assignment.branchVariable? clauses = .ok (some v)) :
    assignment.isAssigned v = false ∧ v ≤ assignment.limit := by
  unfold branchVariable? at branch
  split at branch
  · cases branch
  · rename_i openOnes scanned
    obtain ⟨literal, isHead, rfl⟩ := Option.map_eq_some_iff.mp (Except.ok.inj branch)
    exact (allOpenLiterals_spec scanned literal (List.mem_of_mem_head? isHead)).2

/-- The assignment that propagation has reached. -/
theorem propagates_of_eq (covers : assignment.Covers clauses) {propagated? : Option Assignment}
    (reached : propagate clauses assignment = .ok propagated?) :
    Propagates clauses assignment propagated? := by
  obtain ⟨other, done, propagates⟩ := propagate_spec covers
  rw [reached] at done
  exact Except.ok.inj done ▸ propagates

/-- The search answers whether an assignment can be completed. -/
theorem search_spec (covers : assignment.Covers clauses) (decisions : Nat) :
    ∃ found count, search clauses assignment decisions = .ok (found, count) ∧
      (found = true ↔ Completable clauses assignment) := by
  fun_induction search clauses assignment decisions with
  | case1 assignment decisions error reached =>
      obtain ⟨other, done, -⟩ := propagate_spec covers
      rw [reached] at done
      cases done
  | case2 assignment decisions reached =>
      have failed := (propagates_of_eq covers reached).failed rfl
      exact ⟨false, decisions, rfl, by simp [failed]⟩
  | case3 assignment decisions propagated reached error branch =>
      have limit := (propagates_of_eq covers reached).limit propagated rfl
      obtain ⟨openOnes, scanned, -⟩ := exists_allOpenLiterals (covers.of_limit limit)
      simp only [branchVariable?, scanned] at branch
      cases branch
  | case4 assignment decisions propagated reached branch =>
      have propagates := propagates_of_eq covers reached
      have completable := completable_of_noOpen
        (covers.of_limit (propagates.limit propagated rfl)) (propagates.noneFalse propagated rfl)
        branch
      refine ⟨true, decisions, rfl, ?_⟩
      simp [propagates.completable_iff propagated rfl, completable]
  | case5 assignment decisions propagated reached v branch _ error failed ih =>
      have limit := (propagates_of_eq covers reached).limit propagated rfl
      obtain ⟨found, count, done, -⟩ := ih (covers.of_limit limit)
      rw [failed] at done
      cases done
  | case6 assignment decisions propagated reached v branch _ count positive ih =>
      have propagates := propagates_of_eq covers reached
      obtain ⟨found, other, done, found_iff⟩ :=
        ih (covers.of_limit (propagates.limit propagated rfl))
      rw [positive] at done
      cases done
      refine ⟨true, count, rfl, ?_⟩
      rw [propagates.completable_iff propagated rfl,
        completable_iff_branch (isOpen_of_branchVariable? branch).1, ← found_iff]
      simp
  | case7 assignment decisions propagated reached v branch _ count positive ihPositive ihNegative =>
      have propagates := propagates_of_eq covers reached
      have limit := propagates.limit propagated rfl
      obtain ⟨found, other, done, found_iff⟩ := ihPositive (covers.of_limit limit)
      rw [positive] at done
      cases done
      obtain ⟨found, total, done, foundToo_iff⟩ := ihNegative (covers.of_limit limit)
      refine ⟨found, total, done, ?_⟩
      rw [propagates.completable_iff propagated rfl,
        completable_iff_branch (isOpen_of_branchVariable? branch).1, ← found_iff, foundToo_iff]
      simp

end Assignment

/-- A problem whose clauses use declared variables is decided: it is found
satisfiable exactly when some truth values satisfy its clauses. -/
theorem decideProblem_spec {problem : Dimacs.Problem}
    (declared : ∀ clause ∈ problem.clauses, ∀ literal ∈ clause,
      literal.atom ≤ problem.variableCount) :
    ∃ verdict count, decideProblem problem = .ok (verdict, count) ∧
      (verdict = .unsatisfiable ↔ ∀ truth, ¬ClauseSet.Holds truth problem.clauses) := by
  obtain ⟨found, count, done, found_iff⟩ :=
    @Assignment.search_spec (.start problem.variableCount) problem.clauses declared 0
  have completable_iff : Assignment.Completable problem.clauses (.start problem.variableCount) ↔
      ∃ truth, ClauseSet.Holds truth problem.clauses :=
    exists_congr fun truth => and_iff_right (Assignment.agrees_start _ truth)
  rw [completable_iff] at found_iff
  cases found with
  | true =>
      refine ⟨.satisfiable, count, by simp only [decideProblem, done], ?_⟩
      simpa using found_iff
  | false =>
      refine ⟨.unsatisfiable, count, by simp only [decideProblem, done], ?_⟩
      simpa using found_iff

end Entailment.Sat
