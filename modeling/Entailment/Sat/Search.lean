import Entailment.Dimacs.Reader
import Entailment.Sat.Assignment

/-!
# Backtracking search for a satisfying assignment

The solver alternates two steps.  Propagation assigns the literal of every
clause with a single open literal, and when no such clause is left it assigns
every variable that is open with one sign only.  Branching takes the first open
literal of the first clause without a true literal and tries its variable with
both values, true first.

Assignments are values, so that going back to an earlier one takes no work.
The search counts every branch it enters as a decision.
-/

namespace Entailment.Sat

namespace Assignment

/-- Go through the clauses once and assign the open literal of every clause
that has one open literal only and no true one.  An assignment made on the way
counts for the clauses after it.  Nothing is returned when a clause is false. -/
def unitPass (assignment : Assignment) : List Clause → Except Error (Option Assignment)
  | [] => .ok (some assignment)
  | clause :: rest =>
      match assignment.openLiterals clause with
      | .error error => .error error
      | .ok (some []) => .ok none
      | .ok (some [literal]) => (assignment.assign literal).unitPass rest
      | .ok _ => assignment.unitPass rest

/-- The open literals of the clauses without a true literal. -/
def allOpenLiterals (assignment : Assignment) : List Clause → Except Error (List (Literal Nat))
  | [] => .ok []
  | clause :: rest =>
      match assignment.openLiterals clause with
      | .error error => .error error
      | .ok openOnes =>
          match assignment.allOpenLiterals rest with
          | .error error => .error error
          | .ok openRest => .ok (openOnes.getD [] ++ openRest)

/-- Make all given literals true. -/
def assignAll (literals : List (Literal Nat)) (assignment : Assignment) : Assignment :=
  literals.foldl (fun assignment literal => assignment.assign literal) assignment

/-- Assign every variable that is open in clauses without a true literal, and
open there with one sign only. -/
def purePass (assignment : Assignment) (clauses : List Clause) : Except Error Assignment :=
  match assignment.allOpenLiterals clauses with
  | .error error => .error error
  | .ok openOnes =>
      .ok (assignment.assignAll (openOnes.filter fun literal => !openOnes.contains literal.negate))

/-- The variable of the first open literal of the first clause without a true
literal. -/
def branchVariable? (assignment : Assignment) (clauses : List Clause) :
    Except Error (Option Nat) :=
  match assignment.allOpenLiterals clauses with
  | .error error => .error error
  | .ok openOnes => .ok (openOnes.head?.map Literal.atom)

/-- Assign literals of unit clauses, then pure literals, until neither step
assigns a variable of the clauses.  Nothing is returned when a clause is
false. -/
def propagate (clauses : List Clause) (assignment : Assignment) :
    Except Error (Option Assignment) :=
  match assignment.unitPass clauses with
  | .error error => .error error
  | .ok none => .ok none
  | .ok (some extended) =>
      if extended.openCount clauses < assignment.openCount clauses then
        propagate clauses extended
      else
        match extended.purePass clauses with
        | .error error => .error error
        | .ok purified =>
            if purified.openCount clauses < assignment.openCount clauses then
              propagate clauses purified
            else .ok (some purified)
termination_by assignment.openCount clauses

/-- The open literals of some clauses, one clause at a time. -/
theorem allOpenLiterals_cons {assignment : Assignment} {clause : Clause} {rest : List Clause}
    {openOnes : List (Literal Nat)}
    (scanned : assignment.allOpenLiterals (clause :: rest) = .ok openOnes) :
    ∃ own? openRest, openOnes = own?.getD [] ++ openRest ∧
      assignment.openLiterals clause = .ok own? ∧
      assignment.allOpenLiterals rest = .ok openRest := by
  unfold allOpenLiterals at scanned
  split at scanned
  · cases scanned
  · rename_i own? own
    split at scanned
    · cases scanned
    · rename_i openRest restScanned
      cases scanned
      exact ⟨own?, openRest, rfl, own, restScanned⟩

/-- The open literals belong to clauses, have no value and are within the limit. -/
theorem allOpenLiterals_spec {assignment : Assignment} {clauses : List Clause}
    {openOnes : List (Literal Nat)}
    (scanned : assignment.allOpenLiterals clauses = .ok openOnes) :
    ∀ literal ∈ openOnes, (∃ clause ∈ clauses, literal ∈ clause) ∧
      assignment.isAssigned literal.atom = false ∧ literal.atom ≤ assignment.limit := by
  induction clauses generalizing openOnes with
  | nil =>
      cases scanned
      simp
  | cons clause rest ih =>
      obtain ⟨own?, openRest, rfl, own, restScanned⟩ := allOpenLiterals_cons scanned
      intro literal mem
      rcases List.mem_append.mp mem with memClause | memRest
      · cases own? with
        | none => cases memClause
        | some openOnes =>
            exact (openLiterals_spec own literal memClause).imp_left fun inClause =>
              ⟨clause, List.mem_cons_self .., inClause⟩
      · exact (ih restScanned literal memRest).imp_left fun inRest =>
          inRest.imp fun other found => found.imp_left (List.mem_cons_of_mem _)

/-- Making literals true opens no variable. -/
theorem openCount_assignAll_le (literals : List (Literal Nat)) (assignment : Assignment)
    (clauses : List Clause) :
    (assignment.assignAll literals).openCount clauses ≤ assignment.openCount clauses := by
  induction literals generalizing assignment with
  | nil => exact Nat.le_refl _
  | cons literal rest ih =>
      exact Nat.le_trans (ih (assignment.assign literal))
        (openCount_assign_le assignment literal clauses)

/-- A pass over unit clauses opens no variable. -/
theorem openCount_unitPass_le {assignment extended : Assignment} {pending : List Clause}
    (passed : assignment.unitPass pending = .ok (some extended)) (clauses : List Clause) :
    extended.openCount clauses ≤ assignment.openCount clauses := by
  induction pending generalizing assignment with
  | nil =>
      cases passed
      exact Nat.le_refl _
  | cons clause rest ih =>
      unfold unitPass at passed
      split at passed
      · cases passed
      · cases passed
      · exact Nat.le_trans (ih passed) (openCount_assign_le _ _ _)
      · exact ih passed

/-- A pass over pure literals opens no variable. -/
theorem openCount_purePass_le {assignment purified : Assignment} {pending : List Clause}
    (passed : assignment.purePass pending = .ok purified) (clauses : List Clause) :
    purified.openCount clauses ≤ assignment.openCount clauses := by
  unfold purePass at passed
  split at passed
  · cases passed
  · cases passed
    exact openCount_assignAll_le _ _ _

/-- Propagation opens no variable. -/
theorem openCount_propagate_le {clauses : List Clause} {assignment propagated : Assignment}
    (reached : propagate clauses assignment = .ok (some propagated)) :
    propagated.openCount clauses ≤ assignment.openCount clauses := by
  fun_induction propagate clauses assignment with
  | case1 => cases reached
  | case2 => cases reached
  | case3 assignment extended passed fewer ih =>
      exact Nat.le_trans (ih reached) (Nat.le_of_lt fewer)
  | case4 => cases reached
  | case5 assignment extended passed same purified purePassed fewer ih =>
      exact Nat.le_trans (ih reached) (Nat.le_of_lt fewer)
  | case6 assignment extended passed same purified purePassed notFewer =>
      cases reached
      exact Nat.le_trans (openCount_purePass_le purePassed clauses)
        (openCount_unitPass_le passed clauses)

/-- Assigning the branch variable leaves fewer open occurrences. -/
theorem openCount_branch_lt {clauses : List Clause} {assignment : Assignment} {v : Nat}
    (branch : assignment.branchVariable? clauses = .ok (some v)) (sign : Sign) :
    (assignment.assign ⟨v, sign⟩).openCount clauses < assignment.openCount clauses := by
  unfold branchVariable? at branch
  split at branch
  · cases branch
  · rename_i openOnes scanned
    cases openOnes with
    | nil => simp at branch
    | cons literal rest =>
        simp only [List.head?_cons, Option.map_some, Except.ok.injEq, Option.some.injEq] at branch
        obtain ⟨⟨clause, clauseMem, literalMem⟩, isOpen, -⟩ :=
          allOpenLiterals_spec scanned literal (List.mem_cons_self ..)
        exact openCount_assign_lt clauseMem literalMem branch (by simpa [branch] using isOpen)

/-- Whether an extension of the assignment satisfies the clauses.  `decisions`
counts the branches entered before; the number returned counts those entered
after it too. -/
def search (clauses : List Clause) (assignment : Assignment) (decisions : Nat) :
    Except Error (Bool × Nat) :=
  match reached : propagate clauses assignment with
  | .error error => .error error
  | .ok none => .ok (false, decisions)
  | .ok (some propagated) =>
      match branch : propagated.branchVariable? clauses with
      | .error error => .error error
      | .ok none => .ok (true, decisions)
      | .ok (some v) =>
          have := fun sign : Sign =>
            Nat.lt_of_lt_of_le (openCount_branch_lt branch sign) (openCount_propagate_le reached)
          match search clauses (propagated.assign (.positive v)) (decisions + 1) with
          | .error error => .error error
          | .ok (true, decisions) => .ok (true, decisions)
          | .ok (false, decisions) =>
              search clauses (propagated.assign (.negative v)) (decisions + 1)
termination_by assignment.openCount clauses
decreasing_by
  all_goals exact this _

end Assignment

/-- The answer of a solver. -/
inductive Verdict where
  | satisfiable
  | unsatisfiable
  deriving DecidableEq, Repr

/-- Decide a DIMACS problem.  The number counts the branches that were
entered. -/
def decideProblem (problem : Dimacs.Problem) : Except Error (Verdict × Nat) :=
  match (Assignment.start problem.variableCount).search problem.clauses 0 with
  | .error error => .error error
  | .ok (true, decisions) => .ok (.satisfiable, decisions)
  | .ok (false, decisions) => .ok (.unsatisfiable, decisions)

/-- Decide the DIMACS problem of a text. -/
def decideText (text : String) : Except Error (Verdict × Nat) :=
  match Dimacs.Problem.parse text with
  | .error error => .error error
  | .ok problem => decideProblem problem

end Entailment.Sat
