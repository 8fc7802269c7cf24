import Entailment.Sat.Search

/-!
# A solver that is used again

A solver works in one place.  It has two rows of marks with a mark for each
variable: whether the variable has a value, and the value.  The trail lists the
variables with a value, the last one first, so that assignments can be taken back
in the opposite order.  Taking an assignment back leaves the old value behind,
where nothing looks at it any more.

A solver stays as the last problem has left it.  The next problem gets new rows
and an empty trail.

A run of the solver fails when it needs the mark of a variable that has none.  Its
loops are not bounded in any way, so a run may also give nothing at all.
-/

namespace Entailment.Sat

/-- A solver as it stands between two steps.  The trail has the last variable
first. -/
structure Solver where
  clauses : List Clause
  assigned : Array Bool
  values : Array Bool
  trail : List Nat
  decisions : Nat
  deriving DecidableEq, Repr

/-- What a run gives: nothing when it goes on forever. -/
abbrev Run (α : Type) := ExceptT Error Option α

/-- What the assigned variables say of a clause. -/
inductive ClauseState where
  | satisfied
  | conflict
  | unit (literal : Literal Nat)
  | undetermined
  deriving DecidableEq, Repr

/-- Marks for the variables that are open with a positive and with a negative
sign. -/
structure OpenMarks where
  positive : Array Bool
  negative : Array Bool
  deriving DecidableEq, Repr

namespace OpenMarks

/-- No variable is marked. -/
def start (size : Nat) : OpenMarks := ⟨.replicate size false, .replicate size false⟩

/-- Mark the variable of a literal. -/
def mark (literal : Literal Nat) (marks : OpenMarks) : OpenMarks :=
  match literal.sign with
  | .positive => { marks with positive := marks.positive.setIfInBounds literal.atom true }
  | .negative => { marks with negative := marks.negative.setIfInBounds literal.atom true }

/-- The sign with which a variable is open, if it is open with one sign only. -/
def pureSign? (marks : OpenMarks) (v : Nat) : Option Sign :=
  match marks.positive[v]?, marks.negative[v]? with
  | some true, some false => some .positive
  | some false, some true => some .negative
  | _, _ => none

end OpenMarks

namespace Solver

/-- A solver that has not been given a problem. -/
def fresh : Solver := ⟨[], #[], #[], [], 0⟩

/-- Start with a problem. -/
def load (problem : Dimacs.Problem) (solver : Solver) : Solver :=
  { solver with
    clauses := problem.clauses
    assigned := .replicate (problem.variableCount + 1) false
    values := .replicate (problem.variableCount + 1) false
    trail := []
    decisions := 0 }

/-- The truth value of a literal, if its variable has one. -/
def evaluate (solver : Solver) (literal : Literal Nat) : Except Error (Option Bool) :=
  match solver.assigned[literal.atom]?, solver.values[literal.atom]? with
  | some false, _ => .ok none
  | some true, some value => .ok (some (value == decide (literal.sign = .positive)))
  | _, _ => .error (.outsideAssignment literal.atom)

/-- Make a literal true. -/
def assign (literal : Literal Nat) (solver : Solver) : Except Error Solver :=
  if literal.atom < solver.assigned.size ∧ literal.atom < solver.values.size then
    .ok { solver with
      assigned := solver.assigned.setIfInBounds literal.atom true
      values := solver.values.setIfInBounds literal.atom (literal.sign = .positive)
      trail := literal.atom :: solver.trail }
  else .error (.outsideAssignment literal.atom)

/-- Take back assignments until `length` of them are left on the trail. -/
def backtrack (length : Nat) (solver : Solver) : Solver :=
  let excess := solver.trail.length - length
  { solver with
    assigned := (solver.trail.take excess).foldl
      (fun assigned v => assigned.setIfInBounds v false) solver.assigned
    trail := solver.trail.drop excess }

/-- Look at the rest of a clause, of which `count` literals have been found open,
the last one being `last?`. -/
def stateFrom (solver : Solver) (count : Nat) (last? : Option (Literal Nat)) :
    Clause → Except Error ClauseState
  | [] =>
      match count, last? with
      | 0, _ => .ok .conflict
      | 1, some literal => .ok (.unit literal)
      | _, _ => .ok .undetermined
  | literal :: rest =>
      match solver.evaluate literal with
      | .error error => .error error
      | .ok (some true) => .ok .satisfied
      | .ok (some false) => solver.stateFrom count last? rest
      | .ok none => solver.stateFrom (count + 1) (some literal) rest

/-- What the assigned variables say of a clause. -/
def clauseState (solver : Solver) (clause : Clause) : Except Error ClauseState :=
  solver.stateFrom 0 none clause

/-- Go through some clauses once and assign the literals of unit clauses.  The
result says whether anything has been assigned, and nothing after a conflict. -/
def unitScan : List Clause → Bool → Solver → Except Error (Option Bool × Solver)
  | [], changed, solver => .ok (some changed, solver)
  | clause :: rest, changed, solver =>
      match solver.clauseState clause with
      | .error error => .error error
      | .ok .conflict => .ok (none, solver)
      | .ok (.unit literal) =>
          match solver.assign literal with
          | .error error => .error error
          | .ok solver => unitScan rest true solver
      | .ok _ => unitScan rest changed solver

/-- Mark the open literals of a clause. -/
def markLiterals (solver : Solver) : Clause → OpenMarks → Except Error OpenMarks
  | [], marks => .ok marks
  | literal :: rest, marks =>
      match solver.evaluate literal with
      | .error error => .error error
      | .ok (some _) => solver.markLiterals rest marks
      | .ok none => solver.markLiterals rest (marks.mark literal)

/-- Mark the open literals of the clauses that are not satisfied. -/
def markClauses (solver : Solver) : List Clause → OpenMarks → Except Error OpenMarks
  | [], marks => .ok marks
  | clause :: rest, marks =>
      match solver.clauseState clause with
      | .error error => .error error
      | .ok .satisfied => solver.markClauses rest marks
      | .ok _ =>
          match solver.markLiterals clause marks with
          | .error error => .error error
          | .ok marks => solver.markClauses rest marks

/-- Assign those of some variables that are open with one sign only. -/
def assignPure (marks : OpenMarks) : List Nat → Bool → Solver → Except Error (Bool × Solver)
  | [], changed, solver => .ok (changed, solver)
  | v :: rest, changed, solver =>
      match marks.pureSign? v with
      | none => assignPure marks rest changed solver
      | some sign =>
          match solver.assign ⟨v, sign⟩ with
          | .error error => .error error
          | .ok solver => assignPure marks rest true solver

/-- Assign the variables that are open with one sign only.  The result says whether
there are any. -/
def pureScan (solver : Solver) : Except Error (Bool × Solver) :=
  match solver.markClauses solver.clauses (.start solver.assigned.size) with
  | .error error => .error error
  | .ok marks => solver.assignPure marks (List.range' 1 (solver.assigned.size - 1)) false

/-- Assign literals of unit clauses, and pure literals where there is no unit
clause, until nothing changes.  The result is false after a conflict. -/
def propagate (solver : Solver) : Run (Bool × Solver) := do
  match ← solver.unitScan solver.clauses false with
  | (none, scanned) => return (false, scanned)
  | (some true, scanned) => scanned |>.propagate
  | (some false, scanned) =>
      match ← scanned.pureScan with
      | (true, assigned) => assigned |>.propagate
      | (false, assigned) => return (true, assigned)
partial_fixpoint

/-- The first open literal of a clause. -/
def firstOpen? (solver : Solver) : Clause → Except Error (Option (Literal Nat))
  | [] => .ok none
  | literal :: rest =>
      match solver.evaluate literal with
      | .error error => .error error
      | .ok (some _) => solver.firstOpen? rest
      | .ok none => .ok (some literal)

/-- The variable of the first open literal of the first clause that is not
satisfied and has one. -/
def branchVariable? (solver : Solver) : List Clause → Except Error (Option Nat)
  | [] => .ok none
  | clause :: rest =>
      match solver.clauseState clause with
      | .error error => .error error
      | .ok .satisfied => solver.branchVariable? rest
      | .ok _ =>
          match solver.firstOpen? clause with
          | .error error => .error error
          | .ok (some literal) => .ok (some literal.atom)
          | .ok none => solver.branchVariable? rest

/-- Decide for a literal. -/
def choose (literal : Literal Nat) (solver : Solver) : Except Error Solver :=
  { solver with decisions := solver.decisions + 1 }.assign literal

/-- Whether the assignment can be completed.  If it cannot, it is again what it was
before. -/
def search (solver : Solver) : Run (Bool × Solver) := do
  match ← solver.propagate with
  | (false, conflicting) => return (false, conflicting.backtrack solver.trail.length)
  | (true, propagated) =>
      match ← propagated.branchVariable? propagated.clauses with
      | none => return (true, propagated)
      | some v =>
          match ← (← propagated.choose (.positive v)) |>.search with
          | (true, complete) => return (true, complete)
          | (false, failed) =>
              let back := failed.backtrack propagated.trail.length
              match ← (← back.choose (.negative v)) |>.search with
              | (true, complete) => return (true, complete)
              | (false, failed) =>
                  return (false,
                    (failed.backtrack back.trail.length).backtrack solver.trail.length)
partial_fixpoint

/-- Solve the DIMACS problem of a text. -/
def solve (text : String) (solver : Solver) : Run (Verdict × Solver) := do
  let problem ← Dimacs.Problem.parse text
  match ← (solver.load problem).search with
  | (true, after) => return (.satisfiable, after)
  | (false, after) => return (.unsatisfiable, after)

end Solver

end Entailment.Sat
