import Entailment.Proofs.Dimacs.DeclaredVariables
import Entailment.Proofs.Sat.SolverState

/-!
# A solver that is used again solves as a new one

The solver that works in place follows the search over partial assignments step by
step.  The state that it has reached represents the assignment that the search has
reached, it fails exactly when the search fails, and it counts the same decisions.
A branch that fails gives the assignment back as it was, so that the next branch
starts where the search starts it.

The loops of the solver have no bound of their own.  They end because they do what
the search does, which leaves fewer open occurrences after each round and each
branch.
-/

namespace Entailment.Sat

variable {α β : Type}

/-- Two computations fail with the same error, or give related values. -/
inductive Mirrors {α β : Type} (related : α → β → Prop) :
    Except Error α → Except Error β → Prop where
  | error (error : Error) : Mirrors related (.error error) (.error error)
  | ok {value : α} {mirrored : β} (isRelated : related value mirrored) :
      Mirrors related (.ok value) (.ok mirrored)

theorem Mirrors.imp {related other : α → β → Prop} {result : Except Error α}
    {mirrored : Except Error β} (mirrors : Mirrors related result mirrored)
    (weaken : ∀ value image, result = .ok value → related value image → other value image) :
    Mirrors other result mirrored := by
  cases mirrors with
  | error error => exact .error error
  | ok isRelated => exact .ok (weaken _ _ rfl isRelated)

namespace Assignment

variable {assignment : Assignment} {clauses : List Clause}
variable {literal : Literal Nat} {literals : List (Literal Nat)}

/-- Where propagation ends, all clauses have been looked at. -/
theorem exists_allOpenLiterals_of_propagate {propagated : Assignment}
    (reached : assignment.propagate clauses = .ok (some propagated)) :
    ∃ openOnes, propagated.allOpenLiterals clauses = .ok openOnes := by
  fun_induction propagate clauses assignment with
  | case1 => cases reached
  | case2 => cases reached
  | case3 assignment extended passed fewer ih => exact ih reached
  | case4 => cases reached
  | case5 assignment extended passed notFewer purified purePassed fewer ih => exact ih reached
  | case6 assignment extended passed notFewer purified purePassed notFewerToo =>
      cases reached
      have atMost := openCount_unitPass_le passed clauses
      obtain rfl := purePass_unchanged purePassed (by omega)
      unfold purePass at purePassed
      split at purePassed
      · cases purePassed
      · rename_i openOnes scanned
        exact ⟨openOnes, scanned⟩

/-- The last of the literals of a variable decides its value, so it is the value of
each of them if they are the same. -/
theorem getElem?_assignAll_of_mem (mem : literal ∈ literals)
    (same : ∀ other ∈ literals, other.atom = literal.atom → other = literal) :
    (assignment.assignAll literals).values[literal.atom]? =
      some (decide (literal.sign = .positive)) := by
  induction literals generalizing assignment with
  | nil => cases mem
  | cons first rest ih =>
      by_cases later : literal ∈ rest
      · exact ih later fun other otherMem => same other (List.mem_cons_of_mem _ otherMem)
      · obtain rfl : literal = first := (List.mem_cons.mp mem).resolve_right later
        have different : ∀ other ∈ rest, other.atom ≠ literal.atom := by
          intro other otherMem sameAtom
          exact later (same other (List.mem_cons_of_mem _ otherMem) sameAtom ▸ otherMem)
        refine (getElem?_assignAll_of_ne different).trans ?_
        simp [assign]

/-- The order in which literals are made true does not matter when there is one
literal for each variable. -/
theorem getElem?_assignAll_congr {others : List (Literal Nat)}
    (same : ∀ literal, literal ∈ literals ↔ literal ∈ others)
    (single : ∀ literal ∈ literals, ∀ other ∈ literals, other.atom = literal.atom → other = literal)
    (v : Nat) :
    (assignment.assignAll literals).values[v]? = (assignment.assignAll others).values[v]? := by
  by_cases assigned : ∃ literal ∈ literals, literal.atom = v
  · obtain ⟨literal, mem, rfl⟩ := assigned
    rw [getElem?_assignAll_of_mem mem (single literal mem),
      getElem?_assignAll_of_mem ((same literal).mp mem) fun other otherMem =>
        single literal mem other ((same other).mpr otherMem)]
  · rw [getElem?_assignAll_of_ne fun literal mem isIt => assigned ⟨literal, mem, isIt⟩,
      getElem?_assignAll_of_ne fun literal mem isIt =>
        assigned ⟨literal, (same literal).mpr mem, isIt⟩]

end Assignment

namespace OpenMarks

variable {marks : OpenMarks} {size : Nat} {literals : List (Literal Nat)}

/-- The marks of the variables below a size are those of some literals. -/
structure AreOf (marks : OpenMarks) (size : Nat) (literals : List (Literal Nat)) : Prop where
  positive : ∀ v < size, marks.positive[v]? = some (decide (.positive v ∈ literals))
  negative : ∀ v < size, marks.negative[v]? = some (decide (.negative v ∈ literals))

theorem areOf_start (size : Nat) : (start size).AreOf size [] := by
  constructor <;> intro v inside <;> simp [start, inside]

theorem AreOf.congr {others : List (Literal Nat)} (areOf : marks.AreOf size literals)
    (same : ∀ literal, literal ∈ literals ↔ literal ∈ others) : marks.AreOf size others := by
  constructor
  · intro v inside
    rw [areOf.positive v inside, decide_eq_decide.mpr (same _)]
  · intro v inside
    rw [areOf.negative v inside, decide_eq_decide.mpr (same _)]

/-- Setting one mark of a row. -/
theorem getElem?_set_mark {row : Array Bool} {old : Bool} {v w : Nat} (isOld : row[w]? = some old) :
    (row.setIfInBounds v true)[w]? = some (decide (w = v) || old) := by
  have inside := (Array.getElem?_eq_some_iff.mp isOld).1
  by_cases isIt : w = v
  · subst isIt
    simp [inside]
  · rw [Array.getElem?_setIfInBounds_ne (Ne.symm isIt), isOld]
    simp [isIt]

theorem AreOf.mark (areOf : marks.AreOf size literals) (literal : Literal Nat) :
    (marks.mark literal).AreOf size (literal :: literals) := by
  have marked (v w : Nat) (sign : Sign) :
      (decide (w = v) || decide (⟨w, sign⟩ ∈ literals)) =
        decide ((⟨w, sign⟩ : Literal Nat) ∈ (⟨v, sign⟩ : Literal Nat) :: literals) := by
    simp
  have unmarked {v w : Nat} {sign other : Sign} (different : other ≠ sign) :
      decide (⟨w, other⟩ ∈ literals) =
        decide ((⟨w, other⟩ : Literal Nat) ∈ (⟨v, sign⟩ : Literal Nat) :: literals) := by
    simp [different]
  obtain ⟨v, sign⟩ := literal
  cases sign with
  | positive =>
      refine ⟨fun w inside => ?_, fun w inside => ?_⟩
      · rw [OpenMarks.mark, getElem?_set_mark (areOf.positive w inside)]
        exact congrArg some (marked v w .positive)
      · rw [OpenMarks.mark, areOf.negative w inside]
        exact congrArg some (unmarked (by decide))
  | negative =>
      refine ⟨fun w inside => ?_, fun w inside => ?_⟩
      · rw [OpenMarks.mark, areOf.positive w inside]
        exact congrArg some (unmarked (by decide))
      · rw [OpenMarks.mark, getElem?_set_mark (areOf.negative w inside)]
        exact congrArg some (marked v w .negative)

/-- A variable is pure when one of its literals is marked and the other is not. -/
theorem AreOf.pureSign?_eq_some_iff (areOf : marks.AreOf size literals) {v : Nat} {sign : Sign}
    (inside : v < size) :
    marks.pureSign? v = some sign ↔
      (⟨v, sign⟩ : Literal Nat) ∈ literals ∧ (⟨v, sign⟩ : Literal Nat).negate ∉ literals := by
  rw [pureSign?, areOf.positive v inside, areOf.negative v inside]
  by_cases positive : Literal.positive v ∈ literals <;>
    by_cases negative : Literal.negative v ∈ literals <;> cases sign <;>
    simp_all [Literal.positive, Literal.negative, Literal.negate, Sign.negate]

end OpenMarks

namespace Solver

variable {solver : Solver} {assignment : Assignment} {clauses : List Clause}
variable {α β : Type} {clause : Clause}
variable {candidates : List Nat}

/-! ## Looking at clauses -/

/-- What the open literals of a clause without a true literal say of it. -/
def stateOfOpen : Option Clause → ClauseState
  | none => .satisfied
  | some [] => .conflict
  | some [literal] => .unit literal
  | some _ => .undetermined

/-- Counting the open literals while a clause is scanned. -/
theorem Represents.stateFrom (represents : solver.Represents assignment) (count : Nat)
    (last? : Option (Literal Nat)) (clause : Clause) :
    solver.stateFrom count last? clause =
      match assignment.openLiterals clause with
      | .error error => .error error
      | .ok none => .ok .satisfied
      | .ok (some openOnes) =>
          solver.stateFrom (count + openOnes.length) (openOnes.getLast?.or last?) [] := by
  induction clause generalizing count last? with
  | nil => rfl
  | cons literal rest ih =>
      rw [Solver.stateFrom, Assignment.openLiterals, represents.evaluate]
      cases assignment.evaluate literal with
      | error error => rfl
      | ok value? =>
          cases value? with
          | some value =>
              cases value with
              | true => rfl
              | false => exact ih count last?
          | none =>
              simp only
              rw [ih]
              cases assignment.openLiterals rest with
              | error error => rfl
              | ok openRest? =>
                  cases openRest? with
                  | none => rfl
                  | some openRest =>
                      have counted : count + 1 + openRest.length =
                          count + (literal :: openRest).length := by
                        rw [List.length_cons]
                        omega
                      have isLast : openRest.getLast?.or (some literal) =
                          (literal :: openRest).getLast?.or last? := by
                        rw [List.getLast?_cons]
                        cases openRest.getLast? <;> rfl
                      simp only [counted, isLast]

/-- The state of a clause for a solver is what its open literals say. -/
theorem Represents.clauseState (represents : solver.Represents assignment) (clause : Clause) :
    solver.clauseState clause = (assignment.openLiterals clause).map stateOfOpen := by
  rw [Solver.clauseState, represents.stateFrom]
  rcases assignment.openLiterals clause with error | _ | _ | ⟨first, _ | ⟨second, rest⟩⟩
  · rfl
  · rfl
  · rfl
  · rfl
  · have isMany : 0 + (first :: second :: rest).length = rest.length + 2 := by
      rw [Nat.zero_add]
      rfl
    simp only [isMany, Solver.stateFrom]
    rfl

/-! ## Unit clauses -/

/-- What a pass over the clauses comes to, in place: nothing after a conflict, or
else the extended assignment and whether it is another one. -/
inductive Scans (solver : Solver) (clauses : List Clause) (assignment : Assignment)
    (changed : Bool) : Option Assignment → Option Bool × Solver → Prop where
  | conflict {after : Solver} (grows : solver.GrowsTo after)
      (decisions : after.decisions = solver.decisions) :
      Scans solver clauses assignment changed none (none, after)
  | extended {extended : Assignment} {after : Solver} (follows : solver.Follows extended after) :
      Scans solver clauses assignment changed (some extended)
        (some (changed || decide (extended.openCount clauses < assignment.openCount clauses)),
          after)

theorem unitScan_mirrors {pending : List Clause} (represents : solver.Represents assignment)
    (subset : ∀ clause ∈ pending, clause ∈ clauses) (changed : Bool) :
    Mirrors (solver.Scans clauses assignment changed) (assignment.unitPass pending)
      (unitScan pending changed solver) := by
  induction pending generalizing solver assignment changed with
  | nil =>
      have same : (some (changed || decide (assignment.openCount clauses <
          assignment.openCount clauses)), solver) = (some changed, solver) := by simp
      exact .ok (same ▸ .extended represents.follows)
  | cons clause rest ih =>
      have restSubset : ∀ other ∈ rest, other ∈ clauses := fun other mem =>
        subset other (List.mem_cons_of_mem _ mem)
      rw [Assignment.unitPass, unitScan, represents.clauseState]
      rcases scanned : assignment.openLiterals clause with
        error | _ | _ | ⟨literal, _ | ⟨second, others⟩⟩
      case error => exact .error error
      case ok.none => exact ih represents restSubset changed
      case ok.some.nil => exact .ok (.conflict (.refl solver) rfl)
      case ok.some.cons.cons => exact ih represents restSubset changed
      case ok.some.cons.nil =>
          have mem : literal ∈ [literal] := List.mem_singleton_self literal
          obtain ⟨inClause, isOpen, within⟩ := Assignment.openLiterals_spec scanned literal mem
          obtain ⟨next, assigned, follows⟩ := represents.assign within isOpen
          have fewer : (assignment.assign literal).openCount clauses <
              assignment.openCount clauses :=
            Assignment.openCount_assign_lt (subset clause (List.mem_cons_self ..)) inClause rfl
              isOpen
          simp only [Except.map, stateOfOpen, assigned]
          apply (ih follows.represents restSubset true).imp
          rintro extended? result passed (⟨grows, decisions⟩ | ⟨later⟩)
          · exact .conflict (follows.grows.trans grows) (decisions.trans follows.decisions)
          · rename_i extended after
            have fewerStill : extended.openCount clauses < assignment.openCount clauses :=
              Nat.lt_of_le_of_lt (Assignment.openCount_unitPass_le passed clauses) fewer
            have same : (some (changed || decide (extended.openCount clauses <
                assignment.openCount clauses)), after) = (some (true || decide
                  (extended.openCount clauses < (assignment.assign literal).openCount clauses)),
                    after) := by simp [fewerStill]
            exact same ▸ .extended (follows.trans later)

theorem Represents.unitScan (represents : solver.Represents assignment) (clauses : List Clause) :
    Mirrors (solver.Scans clauses assignment false) (assignment.unitPass clauses)
      (solver.unitScan clauses false) :=
  unitScan_mirrors represents (fun _ mem => mem) false

/-! ## Pure literals -/

variable {size : Nat} {marks : OpenMarks} {literals : List (Literal Nat)}

/-- The open literals of a clause that is not satisfied are marked. -/
theorem Represents.markLiterals (represents : solver.Represents assignment)
    (areOf : marks.AreOf size literals) {openOnes : Clause}
    (scanned : assignment.openLiterals clause = .ok (some openOnes)) :
    ∃ after, solver.markLiterals clause marks = .ok after ∧
      after.AreOf size (openOnes ++ literals) := by
  induction clause generalizing marks literals openOnes with
  | nil =>
      cases scanned
      exact ⟨marks, rfl, areOf⟩
  | cons literal rest ih =>
      rw [Solver.markLiterals, represents.evaluate]
      obtain ⟨evaluated, restScanned⟩ | ⟨openRest, rfl, evaluated, restScanned⟩ :=
        Assignment.openLiterals_cons scanned
      · rw [evaluated]
        exact ih areOf restScanned
      · rw [evaluated]
        obtain ⟨after, marked, afterAreOf⟩ := ih (areOf.mark literal) restScanned
        refine ⟨after, marked, afterAreOf.congr fun other => ?_⟩
        simp only [List.mem_append, List.mem_cons, or_assoc, or_left_comm]

/-- The marks of a clause are those of its open literals, and a satisfied clause has
none. -/
theorem Represents.markClauses_cons (represents : solver.Represents assignment)
    (areOf : marks.AreOf size literals) {openOnes? : Option Clause}
    (scanned : assignment.openLiterals clause = .ok openOnes?) (rest : List Clause) :
    ∃ marked, solver.markClauses (clause :: rest) marks = solver.markClauses rest marked ∧
      marked.AreOf size (openOnes?.getD [] ++ literals) := by
  rw [Solver.markClauses, represents.clauseState, scanned]
  cases openOnes? with
  | none => exact ⟨marks, rfl, areOf⟩
  | some openOnes =>
      obtain ⟨marked, isMarked, ownAreOf⟩ := represents.markLiterals areOf scanned
      refine ⟨marked, ?_, ownAreOf⟩
      rcases openOnes with _ | ⟨first, _ | ⟨second, others⟩⟩ <;>
        simp only [Except.map, stateOfOpen, isMarked]

theorem Represents.markClauses (represents : solver.Represents assignment)
    (areOf : marks.AreOf size literals) (clauses : List Clause) :
    Mirrors (fun openOnes after => after.AreOf size (openOnes ++ literals))
      (assignment.allOpenLiterals clauses) (solver.markClauses clauses marks) := by
  induction clauses generalizing marks literals with
  | nil => exact .ok areOf
  | cons clause rest ih =>
      rw [Assignment.allOpenLiterals]
      cases scanned : assignment.openLiterals clause with
      | error error =>
          rw [Solver.markClauses, represents.clauseState, scanned]
          exact .error error
      | ok openOnes? =>
          obtain ⟨marked, marksOn, ownAreOf⟩ := represents.markClauses_cons areOf scanned rest
          rw [marksOn]
          have later := ih ownAreOf
          generalize assignment.allOpenLiterals rest = openRest at later
          generalize solver.markClauses rest marked = after at later
          cases later with
          | error error => exact .error error
          | ok afterAreOf =>
              refine .ok (afterAreOf.congr fun other => ?_)
              simp only [List.mem_append, or_assoc, or_left_comm]

/-- The literals of some variables that are open with one sign only. -/
def pureLiterals (marks : OpenMarks) (candidates : List Nat) : List (Literal Nat) :=
  candidates.filterMap fun v => (marks.pureSign? v).map fun sign => ⟨v, sign⟩

theorem mem_pureLiterals {literal : Literal Nat} :
    literal ∈ pureLiterals marks candidates ↔
      literal.atom ∈ candidates ∧ marks.pureSign? literal.atom = some literal.sign := by
  simp only [pureLiterals, List.mem_filterMap, Option.map_eq_some_iff]
  constructor
  · rintro ⟨v, mem, sign, isPure, rfl⟩
    exact ⟨mem, isPure⟩
  · rintro ⟨mem, isPure⟩
    exact ⟨literal.atom, mem, literal.sign, isPure, rfl⟩

/-- When the marks are those of all open literals, the pure ones of them are found. -/
theorem mem_pureLiterals_iff (areOf : marks.AreOf size literals)
    (below : ∀ v ∈ candidates, v < size) (inside : ∀ literal ∈ literals, literal.atom ∈ candidates)
    {literal : Literal Nat} :
    literal ∈ pureLiterals marks candidates ↔ literal ∈ literals ∧ literal.negate ∉ literals := by
  rw [mem_pureLiterals]
  constructor
  · rintro ⟨mem, isPure⟩
    exact (areOf.pureSign?_eq_some_iff (below _ mem)).mp isPure
  · intro isPure
    have mem := inside literal isPure.1
    exact ⟨mem, (areOf.pureSign?_eq_some_iff (below _ mem)).mpr isPure⟩

/-- The pure candidates are assigned one after the other, each of them once. -/
theorem Represents.assignPure (represents : solver.Represents assignment)
    (distinct : candidates.Nodup)
    (areOpen : ∀ literal ∈ pureLiterals marks candidates, literal.atom ≤ assignment.limit ∧
      assignment.isAssigned literal.atom = false) (changed : Bool) :
    ∃ after, assignPure marks candidates changed solver =
        .ok (changed || !(pureLiterals marks candidates).isEmpty, after) ∧
      solver.Follows (assignment.assignAll (pureLiterals marks candidates)) after := by
  induction candidates generalizing solver assignment changed with
  | nil => exact ⟨solver, by simp [Solver.assignPure, pureLiterals], represents.follows⟩
  | cons v rest ih =>
      obtain ⟨notLater, restDistinct⟩ := List.nodup_cons.mp distinct
      cases isPure : marks.pureSign? v with
      | none =>
          have same : pureLiterals marks (v :: rest) = pureLiterals marks rest := by
            simp [pureLiterals, isPure]
          rw [same] at areOpen ⊢
          simp only [Solver.assignPure, isPure]
          exact ih represents restDistinct areOpen changed
      | some sign =>
          have isFirst : pureLiterals marks (v :: rest) = ⟨v, sign⟩ :: pureLiterals marks rest := by
            simp [pureLiterals, isPure]
          rw [isFirst] at areOpen ⊢
          obtain ⟨⟨within, isOpen⟩, othersOpen⟩ := List.forall_mem_cons.mp areOpen
          obtain ⟨next, assigned, follows⟩ := represents.assign within isOpen
          have stillOpen : ∀ literal ∈ pureLiterals marks rest,
              literal.atom ≤ assignment.limit ∧
                (assignment.assign ⟨v, sign⟩).isAssigned literal.atom = false := by
            intro literal mem
            have different : v ≠ literal.atom := by
              rintro rfl
              exact notLater (mem_pureLiterals.mp mem).1
            simpa [different] using othersOpen literal mem
          obtain ⟨after, done, later⟩ := ih follows.represents restDistinct stillOpen true
          refine ⟨after, ?_, follows.trans later⟩
          simp only [Solver.assignPure, isPure, assigned, done, Bool.true_or, List.isEmpty_cons,
            Bool.not_false, Bool.or_true]

/-- Representing an assignment is a matter of its values only. -/
theorem Represents.congr {other : Assignment} (represents : solver.Represents assignment)
    (limit : other.limit = assignment.limit)
    (values : ∀ v : Nat, assignment.values[v]? = other.values[v]?) : solver.Represents other := by
  refine ⟨limit ▸ represents.assignedSize, limit ▸ represents.valuesSize, fun v within => ?_⟩
  rw [← values, represents.value v (limit ▸ within)]

/-- When the pure literals of the candidates are some open literals of the clauses,
those are made true, though perhaps in another order. -/
theorem Represents.assignPure_eq (represents : solver.Represents assignment)
    (distinct : candidates.Nodup)
    (same : ∀ literal, literal ∈ pureLiterals marks candidates ↔ literal ∈ literals)
    (occur : ∀ literal ∈ literals, (∃ clause ∈ clauses, literal ∈ clause) ∧ assignment.isAssigned
      literal.atom = false ∧ literal.atom ≤ assignment.limit) :
    ∃ after, solver.assignPure marks candidates false =
        .ok (decide ((assignment.assignAll literals).openCount clauses <
          assignment.openCount clauses), after) ∧
      solver.Follows (assignment.assignAll literals) after := by
  have areOpen (literal : Literal Nat) (mem : literal ∈ pureLiterals marks candidates) :=
    (occur literal ((same literal).mp mem)).2.symm
  obtain ⟨after, done, follows⟩ := represents.assignPure distinct areOpen false
  have single : ∀ literal ∈ pureLiterals marks candidates,
      ∀ other ∈ pureLiterals marks candidates, other.atom = literal.atom → other = literal := by
    rintro ⟨v, sign⟩ mem ⟨w, otherSign⟩ otherMem rfl
    have isSign := (mem_pureLiterals.mp otherMem).2.symm.trans (mem_pureLiterals.mp mem).2
    exact congrArg (Literal.mk w) (Option.some.inj isSign)
  have changed : (false || !(pureLiterals marks candidates).isEmpty) =
      decide ((assignment.assignAll literals).openCount clauses <
        assignment.openCount clauses) := by
    cases literals with
    | nil =>
        have none : pureLiterals marks candidates = [] :=
          List.eq_nil_iff_forall_not_mem.mpr fun literal mem =>
            List.not_mem_nil ((same literal).mp mem)
        simp [none, Assignment.assignAll]
    | cons first rest =>
        have some : pureLiterals marks candidates ≠ [] :=
          List.ne_nil_of_mem ((same first).mpr (List.mem_cons_self ..))
        obtain ⟨⟨clause, clauseMem, inClause⟩, isOpen, -⟩ := occur first (List.mem_cons_self ..)
        have fewer : (assignment.assignAll (first :: rest)).openCount clauses <
            assignment.openCount clauses :=
          Nat.lt_of_le_of_lt (Assignment.openCount_assignAll_le rest _ clauses)
            (Assignment.openCount_assign_lt clauseMem inClause rfl isOpen)
        simp [some, fewer]
  refine ⟨after, by rw [done, changed], ?_, follows.grows, follows.decisions⟩
  exact follows.represents.congr
    (Assignment.limit_assignAll.trans Assignment.limit_assignAll.symm)
    (Assignment.getElem?_assignAll_congr same single)

/-- Assigning pure literals in place. -/
theorem Represents.pureScan (represents : solver.Represents assignment)
    (numbered : ∀ clause ∈ solver.clauses, ∀ literal ∈ clause, 0 < literal.atom) :
    Mirrors (fun purified result => result.1 = decide (purified.openCount solver.clauses <
        assignment.openCount solver.clauses) ∧ solver.Follows purified result.2)
      (assignment.purePass solver.clauses) solver.pureScan := by
  have marked := represents.markClauses (OpenMarks.areOf_start solver.assigned.size) solver.clauses
  rw [Assignment.purePass, Solver.pureScan]
  cases scanned : assignment.allOpenLiterals solver.clauses with
  | error error =>
      rw [scanned] at marked
      generalize solver.markClauses solver.clauses (.start solver.assigned.size) = marks?
        at marked ⊢
      cases marked
      exact .error error
  | ok openOnes =>
      rw [scanned] at marked
      generalize solver.markClauses solver.clauses (.start solver.assigned.size) = marks?
        at marked ⊢
      cases marked with
      | @ok _ marks areOf =>
          rw [List.append_nil] at areOf
          have occur := Assignment.allOpenLiterals_spec scanned
          have same (literal : Literal Nat) :
              literal ∈ pureLiterals marks (List.range' 1 (solver.assigned.size - 1)) ↔
                literal ∈ openOnes.filter fun literal => !openOnes.contains literal.negate := by
            rw [mem_pureLiterals_iff areOf]
            · simp
            · intro v mem
              have := List.mem_range'_1.mp mem
              omega
            · intro literal mem
              obtain ⟨⟨clause, clauseMem, literalMem⟩, -, within⟩ := occur literal mem
              have := numbered clause clauseMem literal literalMem
              have := represents.assignedSize
              exact List.mem_range'_1.mpr (by omega)
          obtain ⟨after, done, follows⟩ := represents.assignPure_eq List.nodup_range' same
            fun literal mem => occur literal (List.mem_filter.mp mem).1
          simp only [done]
          exact .ok ⟨rfl, follows⟩

/-! ## Propagation -/

/-- What propagation comes to, in place: false after a conflict, or else true and the
assignment that propagation gives. -/
inductive Propagated (solver : Solver) : Option Assignment → Bool × Solver → Prop where
  | conflict {after : Solver} (grows : solver.GrowsTo after)
      (decisions : after.decisions = solver.decisions) : Propagated solver none (false, after)
  | consistent {propagated : Assignment} {after : Solver}
      (follows : solver.Follows propagated after) :
      Propagated solver (some propagated) (true, after)

theorem Propagated.of_follows {middle : Solver} (follows : solver.Follows assignment middle)
    {propagated? : Option Assignment} {result : Bool × Solver}
    (propagated : middle.Propagated propagated? result) :
    solver.Propagated propagated? result := by
  cases propagated with
  | conflict grows decisions =>
      exact .conflict (follows.grows.trans grows) (decisions.trans follows.decisions)
  | consistent later => exact .consistent (follows.trans later)

/-- A run ends, and with what another computation gives. -/
def EndsAs {α β : Type} (related : α → β → Prop) (result : Except Error α) (run : Run β) : Prop :=
  ∃ outcome, run = ExceptT.mk (some outcome) ∧ Mirrors related result outcome

section Runs

variable {α β γ δ : Type} {related : α → β → Prop} {other : γ → δ → Prop}
  {result : Except Error α} {next : β → Run δ}

theorem EndsAs.pure {value : α} {image : β} (isRelated : related value image) :
    EndsAs related (.ok value) (Pure.pure image) :=
  ⟨_, rfl, .ok isRelated⟩

theorem EndsAs.imp {run : Run β} {weaker : α → β → Prop} (ends : EndsAs related result run)
    (weaken : ∀ value image, related value image → weaker value image) :
    EndsAs weaker result run := by
  obtain ⟨outcome, isRun, mirrors⟩ := ends
  exact ⟨outcome, isRun, mirrors.imp fun value image _ => weaken value image⟩

/-- A run fails where its first part does. -/
theorem EndsAs.bind_of_error {run : Run β} (ends : EndsAs related result run) {error : Error}
    (failed : result = .error error) : EndsAs other (.error error) (run >>= next) := by
  subst failed
  obtain ⟨_, rfl, ⟨⟩⟩ := ends
  exact ⟨_, rfl, .error error⟩

/-- A run goes on with what its first part gives. -/
theorem EndsAs.bind_of_ok {run : Run β} (ends : EndsAs related result run) {value : α}
    (done : result = .ok value) {mirrored : Except Error γ}
    (step : ∀ image, related value image → EndsAs other mirrored (next image)) :
    EndsAs other mirrored (run >>= next) := by
  subst done
  obtain ⟨_, rfl, _ | isRelated⟩ := ends
  exact step _ isRelated

/-- When the rest of a run ends as it starts from related values. -/
theorem EndsAs.bind {run : Run β} (ends : EndsAs related result run) {weaker : α → δ → Prop}
    (step : ∀ value image, related value image → EndsAs weaker (.ok value) (next image)) :
    EndsAs weaker result (run >>= next) := by
  cases isResult : result with
  | error error => exact ends.bind_of_error isResult
  | ok value => exact ends.bind_of_ok isResult (step value)

theorem EndsAs.lift {mirrored : Except Error β} (mirrors : Mirrors related result mirrored) :
    EndsAs related result (liftM mirrored) :=
  ⟨mirrored, rfl, mirrors⟩

end Runs

/-- What propagation does after the pure literals have been assigned. -/
def afterPureScan : Bool × Solver → Run (Bool × Solver)
  | (true, assigned) => assigned.propagate
  | (false, assigned) => return (true, assigned)

/-- Where there is no unit clause, propagation goes on with the pure literals. -/
theorem Represents.propagate_of_unitPass (represents : solver.Represents assignment)
    (isClauses : solver.clauses = clauses) {extended : Assignment}
    (passed : assignment.unitPass clauses = .ok (some extended))
    (notFewer : ¬extended.openCount clauses < assignment.openCount clauses)
    {related : α → Bool × Solver → Prop} {result : Except Error α}
    (step : ∀ scanned, solver.Follows extended scanned → scanned.clauses = clauses →
      EndsAs related result (liftM scanned.pureScan >>= afterPureScan)) :
    EndsAs related result solver.propagate := by
  rw [Solver.propagate, isClauses]
  refine (EndsAs.lift (represents.unitScan clauses)).bind_of_ok passed ?_
  rintro _ (_ | follows)
  simp only [notFewer, decide_false, Bool.or_false]
  exact step _ follows (follows.grows.clauses.trans isClauses)

theorem Represents.propagate (represents : solver.Represents assignment)
    (isClauses : solver.clauses = clauses)
    (numbered : ∀ clause ∈ clauses, ∀ literal ∈ clause, 0 < literal.atom) :
    EndsAs solver.Propagated (assignment.propagate clauses) solver.propagate := by
  -- The induction is along the search, whose rounds are known to end.  The solver has the
  -- same rounds: a pass has changed something when fewer occurrences are open after it.
  fun_induction Assignment.propagate clauses assignment generalizing solver with
  | case1 assignment error failed =>
      rw [Solver.propagate, isClauses]
      exact (EndsAs.lift (represents.unitScan clauses)).bind_of_error failed
  | case2 assignment failed =>
      rw [Solver.propagate, isClauses]
      refine (EndsAs.lift (represents.unitScan clauses)).bind_of_ok failed ?_
      rintro _ ⟨grows, decisions⟩
      exact .pure (.conflict grows decisions)
  | case3 assignment extended passed fewer ih =>
      rw [Solver.propagate, isClauses]
      refine (EndsAs.lift (represents.unitScan clauses)).bind_of_ok passed ?_
      rintro _ (_ | unitFollows)
      simp only [fewer, decide_true, Bool.or_true]
      exact (ih unitFollows.represents (unitFollows.grows.clauses.trans isClauses)).imp
        fun _ _ propagated => propagated.of_follows unitFollows
  | case4 assignment extended passed notFewer error failed =>
      refine represents.propagate_of_unitPass isClauses passed notFewer ?_
      intro scanned unitFollows sameClauses
      exact (EndsAs.lift (unitFollows.represents.pureScan (sameClauses ▸ numbered))).bind_of_error
        (sameClauses ▸ failed)
  | case5 assignment extended passed notFewer purified purePassed fewer ih =>
      refine represents.propagate_of_unitPass isClauses passed notFewer ?_
      intro scanned unitFollows sameClauses
      refine (EndsAs.lift (unitFollows.represents.pureScan (sameClauses ▸ numbered))).bind_of_ok
        (sameClauses ▸ purePassed) ?_
      rintro ⟨changed, after⟩ ⟨isChanged, pureFollows⟩
      have atMost := Assignment.openCount_unitPass_le passed clauses
      obtain rfl : changed = true := isChanged.trans (decide_eq_true (by rw [sameClauses]; omega))
      have follows := unitFollows.trans pureFollows
      exact (ih follows.represents (follows.grows.clauses.trans isClauses)).imp
        fun _ _ propagated => propagated.of_follows follows
  | case6 assignment extended passed notFewer purified purePassed notFewerToo =>
      refine represents.propagate_of_unitPass isClauses passed notFewer ?_
      intro scanned unitFollows sameClauses
      refine (EndsAs.lift (unitFollows.represents.pureScan (sameClauses ▸ numbered))).bind_of_ok
        (sameClauses ▸ purePassed) ?_
      rintro ⟨changed, after⟩ ⟨isChanged, pureFollows⟩
      have atMost := Assignment.openCount_unitPass_le passed clauses
      obtain rfl : changed = false :=
        isChanged.trans (decide_eq_false (by rw [sameClauses]; omega))
      exact .pure (.consistent (unitFollows.trans pureFollows))

/-! ## Search -/

theorem Represents.firstOpen? (represents : solver.Represents assignment) {openOnes : Clause}
    (scanned : assignment.openLiterals clause = .ok (some openOnes)) :
    solver.firstOpen? clause = .ok openOnes.head? := by
  induction clause generalizing openOnes with
  | nil =>
      cases scanned
      rfl
  | cons literal rest ih =>
      rw [Solver.firstOpen?, represents.evaluate]
      obtain ⟨evaluated, restScanned⟩ | ⟨openRest, rfl, evaluated, restScanned⟩ :=
        Assignment.openLiterals_cons scanned
      · rw [evaluated]
        exact ih restScanned
      · rw [evaluated]
        rfl

/-- The solver stops at the first open literal, and the search looks at all of
them. -/
theorem Represents.branchVariable?_eq (represents : solver.Represents assignment)
    {openOnes : List (Literal Nat)} (scanned : assignment.allOpenLiterals clauses = .ok openOnes) :
    solver.branchVariable? clauses = .ok (openOnes.head?.map Literal.atom) := by
  induction clauses generalizing openOnes with
  | nil =>
      cases scanned
      rfl
  | cons clause rest ih =>
      obtain ⟨own?, openRest, rfl, own, restScanned⟩ := Assignment.allOpenLiterals_cons scanned
      rw [Solver.branchVariable?, represents.clauseState, own]
      rcases own? with _ | _ | ⟨first, _ | ⟨second, others⟩⟩
      · exact ih restScanned
      · simp only [Except.map, stateOfOpen, represents.firstOpen? own, List.head?_nil]
        exact ih restScanned
      · simp only [Except.map, stateOfOpen, represents.firstOpen? own, List.head?_cons]
        rfl
      · simp only [Except.map, stateOfOpen, represents.firstOpen? own, List.head?_cons]
        rfl

/-- Where propagation has ended, both find the same branch variable. -/
theorem Represents.branchVariable? (represents : solver.Represents assignment)
    (isClauses : solver.clauses = clauses) {start : Assignment}
    (reached : start.propagate clauses = .ok (some assignment)) :
    EndsAs (· = ·) (assignment.branchVariable? clauses)
      (liftM (solver.branchVariable? solver.clauses)) := by
  obtain ⟨openOnes, scanned⟩ := Assignment.exists_allOpenLiterals_of_propagate reached
  rw [isClauses, represents.branchVariable?_eq scanned, Assignment.branchVariable?, scanned]
  exact .lift (.ok rfl)

/-- Deciding for a literal of the branch variable in place. -/
theorem Represents.choose (represents : solver.Represents assignment) (literal : Literal Nat)
    (branch : assignment.branchVariable? clauses = .ok (some literal.atom)) :
    EndsAs (fun chosen after => after.Represents chosen ∧ solver.GrowsTo after ∧
        after.decisions = solver.decisions + 1)
      (.ok (assignment.assign literal)) (liftM (solver.choose literal)) := by
  have counted : Represents { solver with decisions := solver.decisions + 1 } assignment :=
    ⟨represents.assignedSize, represents.valuesSize, represents.value⟩
  obtain ⟨isOpen, within⟩ := Assignment.isOpen_of_branchVariable? branch
  obtain ⟨after, assigned, follows⟩ := counted.assign within isOpen
  have grows := follows.grows
  rw [Solver.choose, assigned]
  exact .lift (.ok ⟨follows.represents,
    ⟨grows.clauses, grows.added, grows.valuesSize, grows.values⟩, follows.decisions⟩)

/-- What a search comes to, in place: the same answer and count, and the assignment
of before when there is no completion. -/
structure Searched (solver : Solver) (result : Bool × Nat) (mirrored : Bool × Solver) : Prop where
  found : mirrored.1 = result.1
  decisions : mirrored.2.decisions = result.2
  returns : result.1 = false → mirrored.2.ReturnsTo solver

/-- What a search does after the branch in which a variable is true. -/
def searchOther (solver propagated : Solver) (v : Nat) : Bool × Solver → Run (Bool × Solver)
  | (true, complete) => return (true, complete)
  | (false, failed) => do
      let back := failed.backtrack propagated.trail.length
      match ← (← back.choose (.negative v)) |>.search with
      | (true, complete) => return (true, complete)
      | (false, failed) =>
          return (false, (failed.backtrack back.trail.length).backtrack solver.trail.length)

/-- A search that has to branch goes on with the branch in which the variable is true. -/
theorem Represents.search_of_branch (represents : solver.Represents assignment)
    (isClauses : solver.clauses = clauses)
    (numbered : ∀ clause ∈ clauses, ∀ literal ∈ clause, 0 < literal.atom)
    {propagated : Assignment} (reached : assignment.propagate clauses = .ok (some propagated))
    {v : Nat} (branch : propagated.branchVariable? clauses = .ok (some v))
    {related : α → Bool × Solver → Prop} {result : Except Error α}
    (step : ∀ middle chosen, solver.Follows propagated middle →
      chosen.Represents (propagated.assign (.positive v)) → middle.GrowsTo chosen →
      chosen.decisions = solver.decisions + 1 →
        EndsAs related result (chosen.search >>= solver.searchOther middle v)) :
    EndsAs related result solver.search := by
  rw [Solver.search]
  refine (represents.propagate isClauses numbered).bind_of_ok reached ?_
  rintro ⟨_, middle⟩ (_ | follows)
  have sameClauses := follows.grows.clauses.trans isClauses
  refine (follows.represents.branchVariable? sameClauses reached).bind_of_ok branch ?_
  rintro _ rfl
  refine (follows.represents.choose (.positive v) branch).bind_of_ok rfl ?_
  rintro chosen ⟨chosenRepresents, grows, counted⟩
  exact step middle chosen follows chosenRepresents grows
    (counted.trans (congrArg (· + 1) follows.decisions))

/-- The solver searches as the search over assignments does.  A branch that fails
leaves the assignment as it was, so the other one starts in the same place. -/
theorem Represents.search (represents : solver.Represents assignment)
    (isClauses : solver.clauses = clauses)
    (numbered : ∀ clause ∈ clauses, ∀ literal ∈ clause, 0 < literal.atom) {decisions : Nat}
    (isCount : solver.decisions = decisions) :
    EndsAs solver.Searched (assignment.search clauses decisions) solver.search := by
  fun_induction Assignment.search clauses assignment decisions generalizing solver with
  | case1 assignment decisions error reached =>
      rw [Solver.search]
      exact (represents.propagate isClauses numbered).bind_of_error reached
  | case2 assignment decisions reached =>
      rw [Solver.search]
      refine (represents.propagate isClauses numbered).bind_of_ok reached ?_
      rintro _ ⟨grows, sameCount⟩
      exact .pure ⟨rfl, sameCount.trans isCount, fun _ => grows.backtrack⟩
  | case3 assignment decisions propagated reached error branch =>
      rw [Solver.search]
      refine (represents.propagate isClauses numbered).bind_of_ok reached ?_
      rintro _ (_ | follows)
      have sameClauses := follows.grows.clauses.trans isClauses
      exact (follows.represents.branchVariable? sameClauses reached).bind_of_error branch
  | case4 assignment decisions propagated reached branch =>
      rw [Solver.search]
      refine (represents.propagate isClauses numbered).bind_of_ok reached ?_
      rintro _ (_ | follows)
      have sameClauses := follows.grows.clauses.trans isClauses
      refine (follows.represents.branchVariable? sameClauses reached).bind_of_ok branch ?_
      rintro _ rfl
      exact .pure ⟨rfl, follows.decisions.trans isCount, by simp⟩
  | case5 assignment decisions propagated reached v branch _ error failed ih =>
      refine represents.search_of_branch isClauses numbered reached branch ?_
      intro middle chosen follows chosenRepresents grows counted
      have sameClauses := (follows.grows.trans grows).clauses.trans isClauses
      exact (ih chosenRepresents sameClauses (by rw [counted, isCount])).bind_of_error failed
  | case6 assignment decisions propagated reached v branch _ count positive ih =>
      refine represents.search_of_branch isClauses numbered reached branch ?_
      intro middle chosen follows chosenRepresents grows counted
      have sameClauses := (follows.grows.trans grows).clauses.trans isClauses
      refine (ih chosenRepresents sameClauses (by rw [counted, isCount])).bind_of_ok positive ?_
      rintro ⟨found, complete⟩ searched
      obtain rfl : found = true := searched.found
      exact .pure ⟨rfl, searched.decisions, by simp⟩
  | case7 assignment decisions propagated reached v branch _ count positive ihPositive ihNegative =>
      refine represents.search_of_branch isClauses numbered reached branch ?_
      intro middle chosen follows chosenRepresents grows counted
      have sameClauses := (follows.grows.trans grows).clauses.trans isClauses
      refine (ihPositive chosenRepresents sameClauses (by rw [counted, isCount])).bind_of_ok
        positive ?_
      rintro ⟨found, failed⟩ searched
      obtain rfl : found = false := searched.found
      -- The failed branch has given back what it assigned, so the other one starts from
      -- the propagated assignment again.
      have back := (grows.trans (searched.returns rfl).growsTo).backtrack
      have backGrows := follows.grows.trans back.growsTo
      refine ((back.represents follows.represents).choose (.negative v) branch).bind_of_ok rfl ?_
      rintro other ⟨otherRepresents, otherGrows, otherCounted⟩
      refine (ihNegative otherRepresents ((backGrows.trans otherGrows).clauses.trans isClauses)
        (by rw [otherCounted]; exact congrArg (· + 1) searched.decisions)).bind ?_
      rintro ⟨result, total⟩ ⟨otherFound, after⟩ otherSearched
      obtain rfl : otherFound = result := otherSearched.found
      cases otherFound with
      | true => exact .pure ⟨rfl, otherSearched.decisions, by simp⟩
      | false =>
          have otherBack := (otherGrows.trans (otherSearched.returns rfl).growsTo).backtrack
          exact .pure ⟨rfl, otherSearched.decisions, fun _ =>
            (backGrows.trans otherBack.growsTo).backtrack⟩

/-- A solver in any state gives the verdict of the search, or its error, and counts
the same decisions. -/
theorem solve_endsAs (text : String) (solver : Solver) :
    EndsAs (fun answer mirrored => mirrored.1 = answer.1 ∧ mirrored.2.decisions = answer.2)
      (decideText text) (solver.solve text) := by
  rw [decideText, solve]
  cases read : Dimacs.Problem.parse text with
  | error error => exact ⟨_, rfl, .error error⟩
  | ok problem =>
      have numbered : ∀ clause ∈ problem.clauses, ∀ literal ∈ clause, 0 < literal.atom :=
        fun clause clauseMem literal mem =>
          ((Dimacs.Problem.isWithin_of_parse read).2 clause clauseMem literal mem).1
      have searched := (represents_load problem solver).search rfl numbered rfl
      change EndsAs _ (decideProblem problem) ((solver.load problem).search >>= _)
      rw [decideProblem]
      cases isResult : (Assignment.start problem.variableCount).search problem.clauses 0 with
      | error error => exact searched.bind_of_error isResult
      | ok result =>
          refine searched.bind_of_ok isResult ?_
          rintro ⟨found, after⟩ same
          obtain ⟨_, count⟩ := result
          obtain rfl := same.found
          cases found with
          | true => exact .pure ⟨rfl, same.decisions⟩
          | false => exact .pure ⟨rfl, same.decisions⟩

end Solver

end Entailment.Sat
