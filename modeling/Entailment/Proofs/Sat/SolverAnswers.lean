import Entailment.Proofs.Sat.ReusedSolver

/-!
# The answers of a solver

A solver that has solved any problems before decides the next one as a new solver
does: it says whether some truth values satisfy all clauses.  This holds for every
text that is read as a problem whose variables are within its count.

A reader checks a variable against the problem line above it, and the count of the
problem comes from the last problem line.  When that line declares fewer variables
than one before it, a variable may be left without a place, and the solver fails if
it looks at it.  There is no other way to fail.
-/

namespace Entailment.Sat

namespace Assignment

variable {assignment : Assignment} {clauses : List Clause} {error : Error}

/-- An error names a variable of a clause that is beyond the limit. -/
def Misses (limit : Nat) (clauses : List Clause) (error : Error) : Prop :=
  ∃ clause ∈ clauses, ∃ literal ∈ clause, limit < literal.atom ∧
    error = .outsideAssignment literal.atom

theorem Misses.cons {limit : Nat} (misses : Misses limit clauses error) (clause : Clause) :
    Misses limit (clause :: clauses) error := by
  obtain ⟨other, mem, missed⟩ := misses
  exact ⟨other, List.mem_cons_of_mem _ mem, missed⟩

theorem openLiterals_error {clause : Clause}
    (failed : assignment.openLiterals clause = .error error) :
    Misses assignment.limit [clause] error := by
  induction clause with
  | nil => cases failed
  | cons literal rest ih =>
      have later (failed : assignment.openLiterals rest = .error error) :
          Misses assignment.limit [literal :: rest] error := by
        obtain ⟨clause, isRest, other, mem, missed⟩ := ih failed
        obtain rfl := List.mem_singleton.mp isRest
        exact ⟨_, List.mem_singleton_self _, other, List.mem_cons_of_mem _ mem, missed⟩
      unfold openLiterals at failed
      split at failed
      · rename_i evaluated
        cases failed
        unfold evaluate at evaluated
        split at evaluated
        · rename_i beyond
          cases evaluated
          exact ⟨_, List.mem_singleton_self _, literal, List.mem_cons_self .., beyond, rfl⟩
        · cases evaluated
      · cases failed
      · exact later failed
      · split at failed
        · rename_i restFailed
          cases failed
          exact later restFailed
        · cases failed
        · cases failed

theorem Misses.head {limit : Nat} {clause : Clause} (misses : Misses limit [clause] error)
    (rest : List Clause) : Misses limit (clause :: rest) error := by
  obtain ⟨other, isClause, missed⟩ := misses
  obtain rfl := List.mem_singleton.mp isClause
  exact ⟨other, List.mem_cons_self .., missed⟩

theorem unitPass_error (failed : assignment.unitPass clauses = .error error) :
    Misses assignment.limit clauses error := by
  induction clauses generalizing assignment with
  | nil => cases failed
  | cons clause rest ih =>
      unfold unitPass at failed
      split at failed
      · rename_i scanned
        cases failed
        exact (openLiterals_error scanned).head rest
      · cases failed
      · exact (ih failed).cons clause
      · exact (ih failed).cons clause

theorem limit_unitPass {pending : List Clause} {extended : Assignment}
    (passed : assignment.unitPass pending = .ok (some extended)) :
    extended.limit = assignment.limit := by
  induction pending generalizing assignment with
  | nil =>
      cases passed
      rfl
  | cons clause rest ih =>
      unfold unitPass at passed
      split at passed
      · cases passed
      · cases passed
      · have later := ih passed
        exact later
      · exact ih passed

theorem allOpenLiterals_error (failed : assignment.allOpenLiterals clauses = .error error) :
    Misses assignment.limit clauses error := by
  induction clauses with
  | nil => cases failed
  | cons clause rest ih =>
      unfold allOpenLiterals at failed
      split at failed
      · rename_i scanned
        cases failed
        exact (openLiterals_error scanned).head rest
      · split at failed
        · rename_i restFailed
          cases failed
          exact (ih restFailed).cons clause
        · cases failed

theorem limit_purePass {purified : Assignment}
    (passed : assignment.purePass clauses = .ok purified) :
    purified.limit = assignment.limit := by
  unfold purePass at passed
  split at passed
  · cases passed
  · cases passed
    exact limit_assignAll

theorem purePass_error (failed : assignment.purePass clauses = .error error) :
    Misses assignment.limit clauses error := by
  unfold purePass at failed
  split at failed
  · rename_i scanned
    cases failed
    exact allOpenLiterals_error scanned
  · cases failed

theorem propagate_error (failed : assignment.propagate clauses = .error error) :
    Misses assignment.limit clauses error := by
  fun_induction propagate clauses assignment with
  | case1 assignment cause passed =>
      cases failed
      exact unitPass_error passed
  | case2 => cases failed
  | case3 assignment extended passed fewer ih => exact limit_unitPass passed ▸ ih failed
  | case4 assignment extended passed notFewer cause purePassed =>
      cases failed
      exact limit_unitPass passed ▸ purePass_error purePassed
  | case5 assignment extended passed notFewer purified purePassed fewer ih =>
      exact limit_unitPass passed ▸ limit_purePass purePassed ▸ ih failed
  | case6 => cases failed

theorem limit_propagate {propagated : Assignment}
    (reached : assignment.propagate clauses = .ok (some propagated)) :
    propagated.limit = assignment.limit := by
  fun_induction propagate clauses assignment with
  | case1 => cases reached
  | case2 => cases reached
  | case3 assignment extended passed fewer ih => exact (ih reached).trans (limit_unitPass passed)
  | case4 => cases reached
  | case5 assignment extended passed notFewer purified purePassed fewer ih =>
      exact (ih reached).trans ((limit_purePass purePassed).trans (limit_unitPass passed))
  | case6 assignment extended passed notFewer purified purePassed notFewerToo =>
      cases reached
      exact (limit_purePass purePassed).trans (limit_unitPass passed)

/-- A search fails only at a variable beyond the limit. -/
theorem search_error {decisions : Nat}
    (failed : assignment.search clauses decisions = .error error) :
    Misses assignment.limit clauses error := by
  fun_induction search clauses assignment decisions with
  | case1 assignment decisions cause reached =>
      cases failed
      exact propagate_error reached
  | case2 => cases failed
  | case3 assignment decisions propagated reached cause branch =>
      cases failed
      unfold branchVariable? at branch
      split at branch
      · rename_i scanned
        cases branch
        exact limit_propagate reached ▸ allOpenLiterals_error scanned
      · cases branch
  | case4 => cases failed
  | case5 assignment decisions propagated reached v branch _ cause positive ih =>
      cases failed
      exact limit_propagate reached ▸ ih positive
  | case6 => cases failed
  | case7 assignment decisions propagated reached v branch _ count positive ihPositive ihNegative =>
      exact limit_propagate reached ▸ ihNegative failed

end Assignment

theorem Verdict.eq_satisfiable_iff {verdict : Verdict} :
    verdict = .satisfiable ↔ verdict ≠ .unsatisfiable := by
  cases verdict <;> simp

namespace Solver

variable {text : String}

/-- A verdict of the search is the verdict of every solver. -/
theorem solve_of_decideText {verdict : Verdict} {count : Nat}
    (decided : decideText text = .ok (verdict, count)) (solver : Solver) :
    ∃ after, solver.solve text = pure (verdict, after) ∧ after.decisions = count := by
  obtain ⟨_, ends, mirrors⟩ := solve_endsAs text solver
  rw [decided] at mirrors
  cases mirrors with
  | @ok _ given same =>
      obtain ⟨_, after⟩ := given
      obtain ⟨rfl, sameCount⟩ := same
      exact ⟨after, ends, sameCount⟩

/-- An error of the search is the error of every solver. -/
theorem solve_of_decideText_error {error : Error} (failed : decideText text = .error error)
    (solver : Solver) : solver.solve text = throw error := by
  obtain ⟨_, ends, mirrors⟩ := solve_endsAs text solver
  rw [failed] at mirrors
  cases mirrors
  exact ends

/-- A problem that is read is decided, or it fails at a variable beyond its count. -/
theorem decideText_outcomes {problem : Dimacs.Problem}
    (read : Dimacs.Problem.parse text = .ok problem) :
    (∃ answer, decideText text = .ok answer) ∨
      ∃ error, decideText text = .error error ∧
        Assignment.Misses problem.variableCount problem.clauses error := by
  simp only [decideText, read, decideProblem]
  cases searched : (Assignment.start problem.variableCount).search problem.clauses 0 with
  | error error => exact .inr ⟨error, rfl, Assignment.search_error searched⟩
  | ok result =>
      obtain ⟨found, count⟩ := result
      cases found <;> exact .inl ⟨_, rfl⟩

/-- A solver in any state solves every text that is read as a problem whose variables
are within its count: it ends, it finds the problem satisfiable exactly when some
truth values satisfy all clauses, and it gives the answer and the number of decisions
of a new solver. -/
theorem solve_decides_satisfiability (solver : Solver) {problem : Dimacs.Problem}
    (read : Dimacs.Problem.parse text = .ok problem)
    (declared : ∀ clause ∈ problem.clauses, ∀ literal ∈ clause,
      literal.atom ≤ problem.variableCount) :
    ∃ verdict after anew, solver.solve text = pure (verdict, after) ∧
      (verdict = .satisfiable ↔ ∃ truth, ClauseSet.Holds truth problem.clauses) ∧
      fresh.solve text = pure (verdict, anew) ∧ anew.decisions = after.decisions := by
  obtain ⟨verdict, count, decided, correct⟩ := decideProblem_spec declared
  have answered : decideText text = .ok (verdict, count) := by
    simp only [decideText, read, decided]
  obtain ⟨after, solved, isCount⟩ := solve_of_decideText answered solver
  obtain ⟨anew, solvedAnew, isCountAnew⟩ := solve_of_decideText answered fresh
  refine ⟨verdict, after, anew, solved, ?_, solvedAnew, isCountAnew.trans isCount.symm⟩
  rw [Verdict.eq_satisfiable_iff, ne_eq, correct]
  simp only [not_forall, not_not]

/-- A solver that was left in the middle of something, and a problem with a clause
that is always true and whose first branch fails. -/
theorem solve_decides_satisfiability_backtracking :
    ∃ after anew,
      Dimacs.Problem.parse "p cnf 3 4\n-1 2 0\n-1 -2 0\n1 3 0\n1 -3 3 0\n" =
        .ok ⟨3, [[.negative 1, .positive 2], [.negative 1, .negative 2],
          [.positive 1, .positive 3], [.positive 1, .negative 3, .positive 3]]⟩ ∧
      (⟨[[.positive 4, .positive 4]], #[true], #[true, false, true], [7, 0], 12⟩ : Solver).solve
        "p cnf 3 4\n-1 2 0\n-1 -2 0\n1 3 0\n1 -3 3 0\n" = pure (.satisfiable, after) ∧
      fresh.solve "p cnf 3 4\n-1 2 0\n-1 -2 0\n1 3 0\n1 -3 3 0\n" =
        pure (.satisfiable, anew) ∧
      anew.decisions = after.decisions := by
  have read : Dimacs.Problem.parse "p cnf 3 4\n-1 2 0\n-1 -2 0\n1 3 0\n1 -3 3 0\n" =
      .ok ⟨3, [[.negative 1, .positive 2], [.negative 1, .negative 2],
        [.positive 1, .positive 3], [.positive 1, .negative 3, .positive 3]]⟩ := by
    rfl
  obtain ⟨verdict, after, anew, solved, correct, solvedAnew, sameCount⟩ :=
    solve_decides_satisfiability
      ⟨[[.positive 4, .positive 4]], #[true], #[true, false, true], [7, 0], 12⟩ read (by decide)
  obtain rfl := correct.mpr ⟨fun v => v = 3, by
    simp [ClauseSet.Holds, Disjunction.Holds, Literal.Holds, Literal.positive, Literal.negative]⟩
  exact ⟨after, anew, read, solved, solvedAnew, sameCount⟩

/-- Every problem that is read has the count of its last problem line, and variables
that are no zero and that some problem line of its text declares.  If no problem line
declares more than the last one, all variables are within the count and a solver in
any state gives a verdict.  In any case a solver ends, and it fails only at a variable
of the problem that is beyond the count. -/
theorem solve_fails_only_beyond_count {problem : Dimacs.Problem}
    (read : Dimacs.Problem.parse text = .ok problem) :
    (Dimacs.declaredCounts text).getLast? = some problem.variableCount ∧
      (∀ clause ∈ problem.clauses, ∀ literal ∈ clause,
        0 < literal.atom ∧ ∃ count ∈ Dimacs.declaredCounts text, literal.atom ≤ count) ∧
      ((∀ count ∈ Dimacs.declaredCounts text, count ≤ problem.variableCount) →
        (∀ clause ∈ problem.clauses, ∀ literal ∈ clause,
          0 < literal.atom ∧ literal.atom ≤ problem.variableCount) ∧
        ∀ solver : Solver, ∃ verdict after, solver.solve text = pure (verdict, after)) ∧
      ∀ solver : Solver, (∃ verdict after, solver.solve text = pure (verdict, after)) ∨
        ∃ clause ∈ problem.clauses, ∃ literal ∈ clause, problem.variableCount < literal.atom ∧
          solver.solve text = throw (.outsideAssignment literal.atom) := by
  obtain ⟨isLast, within⟩ := Dimacs.Problem.isWithin_of_parse read
  have outcomes (solver : Solver) : (∃ verdict after, solver.solve text = pure (verdict, after)) ∨
      ∃ clause ∈ problem.clauses, ∃ literal ∈ clause, problem.variableCount < literal.atom ∧
        solver.solve text = throw (.outsideAssignment literal.atom) := by
    rcases decideText_outcomes read with ⟨⟨verdict, count⟩, decided⟩ |
      ⟨_, failed, clause, clauseMem, literal, mem, beyond, rfl⟩
    · obtain ⟨after, solved, -⟩ := solve_of_decideText decided solver
      exact .inl ⟨verdict, after, solved⟩
    · exact .inr ⟨clause, clauseMem, literal, mem, beyond,
        solve_of_decideText_error failed solver⟩
  refine ⟨isLast, within, fun largest => ?_, outcomes⟩
  have inRange (clause) (clauseMem : clause ∈ problem.clauses) (literal : Literal Nat)
      (mem : literal ∈ clause) : 0 < literal.atom ∧ literal.atom ≤ problem.variableCount := by
    obtain ⟨positive, count, isCount, bound⟩ := within clause clauseMem literal mem
    exact ⟨positive, Nat.le_trans bound (largest count isCount)⟩
  refine ⟨inRange, fun solver => (outcomes solver).resolve_right ?_⟩
  rintro ⟨clause, clauseMem, literal, mem, beyond, -⟩
  exact absurd (inRange clause clauseMem literal mem).2 (Nat.not_le.mpr beyond)

/-- A second problem line that declares more variables than the first, in the middle
of a clause. -/
theorem solve_fails_only_beyond_count_growing :
    Dimacs.Problem.parse "p cnf 1 9\nc more follow\n1\np cnf 3 2\n-3 0 +2 -2 0\n" =
        .ok ⟨3, [[.positive 1, .negative 3], [.positive 2, .negative 2]]⟩ ∧
      Dimacs.declaredCounts "p cnf 1 9\nc more follow\n1\np cnf 3 2\n-3 0 +2 -2 0\n" = [1, 3] ∧
      ∀ solver : Solver, ∃ verdict after,
        solver.solve "p cnf 1 9\nc more follow\n1\np cnf 3 2\n-3 0 +2 -2 0\n" =
          pure (verdict, after) := by
  have read : Dimacs.Problem.parse "p cnf 1 9\nc more follow\n1\np cnf 3 2\n-3 0 +2 -2 0\n" =
      .ok ⟨3, [[.positive 1, .negative 3], [.positive 2, .negative 2]]⟩ := by
    rfl
  have counts : Dimacs.declaredCounts
      "p cnf 1 9\nc more follow\n1\np cnf 3 2\n-3 0 +2 -2 0\n" = [1, 3] := by
    rfl
  obtain ⟨-, -, inRange, -⟩ := solve_fails_only_beyond_count read
  exact ⟨read, counts, (inRange (by rw [counts]; decide)).2⟩

/-- A second problem line that declares fewer variables than a clause above it uses.
The problem is accepted, its variable is beyond the count, and the solver fails. -/
theorem solve_fails_after_smaller_count :
    Dimacs.Problem.parse "p cnf 2 1\n2 0\np cnf 1 1\n" = .ok ⟨1, [[.positive 2]]⟩ ∧
      ¬(∀ clause ∈ [[Literal.positive 2]], ∀ literal ∈ clause, literal.atom ≤ 1) ∧
      fresh.solve "p cnf 2 1\n2 0\np cnf 1 1\n" = throw (.outsideAssignment 2) := by
  have read : Dimacs.Problem.parse "p cnf 2 1\n2 0\np cnf 1 1\n" =
      .ok ⟨1, [[.positive 2]]⟩ := by
    rfl
  refine ⟨read, by decide, ?_⟩
  have scanned : (fresh.load ⟨1, [[.positive 2]]⟩).unitScan [[.positive 2]] false =
      .error (.outsideAssignment 2) := by
    rfl
  have propagated : (fresh.load ⟨1, [[.positive 2]]⟩).propagate =
      throw (.outsideAssignment 2) := by
    rw [propagate]
    exact scanned ▸ rfl
  have searched : (fresh.load ⟨1, [[.positive 2]]⟩).search = throw (.outsideAssignment 2) := by
    rw [search, propagated]
    rfl
  rw [solve, read]
  change (fresh.load ⟨1, [[.positive 2]]⟩).search >>= _ = _
  rw [searched]
  rfl

end Solver

end Entailment.Sat
