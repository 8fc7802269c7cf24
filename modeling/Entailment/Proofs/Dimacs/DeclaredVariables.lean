import Entailment.Dimacs.Reader

/-!
# The variables of a problem that is read

A reader compares every variable with the problem line in force when it meets the
variable.  So each literal of a problem that is read is over a variable that some
problem line of the text declares.  The problem itself has the count of the last
problem line, and when this count is the largest of them, all variables are within
it.
-/

namespace Entailment.Dimacs

/-- The number of variables that a line declares, if it is a problem line. -/
def declaredCount? (line : List Char) : Option Nat :=
  match Text.trim line with
  | 'p' :: rest =>
      match Text.words ('p' :: rest) with
      | [_, ['c', 'n', 'f'], vars, _] => Text.natural? Text.largest32 vars
      | _ => none
  | _ => none

/-- The numbers of variables that the problem lines of a text declare, in their
order. -/
def declaredCounts (text : String) : List Nat :=
  (Text.lines text.toList).filterMap declaredCount?

/-- The variable of a literal is no zero and within one of the declared counts. -/
def IsWithin (counts : List Nat) (literal : Literal Nat) : Prop :=
  0 < literal.atom ∧ ∃ count ∈ counts, literal.atom ≤ count

theorem IsWithin.append {counts : List Nat} {literal : Literal Nat}
    (within : IsWithin counts literal) (later : List Nat) : IsWithin (counts ++ later) literal := by
  obtain ⟨positive, count, mem, bound⟩ := within
  exact ⟨positive, count, List.mem_append_left later mem, bound⟩

namespace Reader

variable {reader after : Reader} {counts : List Nat} {variableCount : Nat}

/-- What a reader has when the problem lines so far have declared some counts: the
last one is in force, and the literals are within one of them. -/
structure IsDeclared (counts : List Nat) (reader : Reader) : Prop where
  header : reader.header.map Prod.fst = counts.getLast?
  clauses : ∀ clause ∈ reader.clauses, ∀ literal ∈ clause, IsWithin counts literal
  current : ∀ literal ∈ reader.current, IsWithin counts literal

theorem isDeclared_start : start.IsDeclared [] := ⟨rfl, by simp [start], by simp [start]⟩

/-- A problem line puts another count in force. -/
theorem IsDeclared.append (declared : reader.IsDeclared counts) (variableCount clauseCount : Nat) :
    IsDeclared (counts ++ [variableCount])
      { reader with header := some (variableCount, clauseCount) } := by
  refine ⟨by simp, fun clause clauseMem literal mem => ?_, fun literal mem => ?_⟩
  · exact (declared.clauses clause clauseMem literal mem).append _
  · exact (declared.current literal mem).append _

/-- A number is zero or a literal that the count in force allows. -/
theorem IsDeclared.readNumber {numeral : List Char} (declared : reader.IsDeclared counts)
    (inForce : variableCount ∈ counts)
    (read : reader.readNumber variableCount numeral = .ok after) : after.IsDeclared counts := by
  unfold Reader.readNumber at read
  split at read
  · cases read
  · rename_i value isValue
    split at read
    · cases read
      refine ⟨declared.header, List.forall_mem_cons.mpr ⟨fun literal mem => ?_, declared.clauses⟩,
        by simp⟩
      exact declared.current literal (List.mem_reverse.mp mem)
    · rename_i notZero
      dsimp only at read
      split at read
      · cases read
      · split at read
        · cases read
        · rename_i allowed
          cases read
          refine ⟨declared.header, declared.clauses,
            List.forall_mem_cons.mpr ⟨⟨?_, variableCount, inForce, ?_⟩, declared.current⟩⟩
          · exact Int.natAbs_pos.mpr notZero
          · exact Nat.not_lt.mp allowed

theorem IsDeclared.readNumbers {numerals : List (List Char)} (declared : reader.IsDeclared counts)
    (inForce : variableCount ∈ counts)
    (read : Reader.readNumbers variableCount numerals reader = .ok after) :
    after.IsDeclared counts := by
  induction numerals generalizing reader with
  | nil =>
      cases read
      exact declared
  | cons numeral rest ih =>
      rw [Reader.readNumbers] at read
      split at read
      · cases read
      · rename_i next first
        exact ih (declared.readNumber inForce first) read

/-- A line that is read as a problem line declares what its third word says. -/
theorem IsDeclared.readProblemLine {line rest : List Char} (declared : reader.IsDeclared counts)
    (trimmed : Text.trim line = 'p' :: rest)
    (read : reader.readProblemLine ('p' :: rest) = .ok after) :
    after.IsDeclared (counts ++ (declaredCount? line).toList) := by
  unfold Reader.readProblemLine at read
  split at read
  · rename_i vars clauses words
    split at read
    · cases read
    · rename_i variableCount isCount
      split at read
      · cases read
      · cases read
        have declares : declaredCount? line = some variableCount := by
          simp only [declaredCount?, trimmed, words, isCount]
        rw [declares]
        exact declared.append _ _
  · cases read

/-- What a line does to the counts and to the literals. -/
theorem IsDeclared.readLine {line : List Char} (declared : reader.IsDeclared counts)
    (read : reader.readLine line = .ok after) :
    after.IsDeclared (counts ++ (declaredCount? line).toList) := by
  unfold Reader.readLine at read
  split at read
  · rename_i trimmed
    cases read
    simpa [declaredCount?, trimmed] using declared
  · rename_i trimmed
    cases read
    simpa [declaredCount?, trimmed] using declared
  · rename_i rest trimmed
    exact declared.readProblemLine trimmed read
  · rename_i notEmpty notComment notProblem
    have declaresNothing : declaredCount? line = none := by
      unfold declaredCount?
      split
      · rename_i rest trimmed
        exact absurd trimmed (notProblem rest)
      · rfl
    split at read
    · cases read
    · rename_i variableCount clauseCount isHeader
      have inForce : variableCount ∈ counts := by
        apply List.mem_of_getLast?
        rw [← declared.header, isHeader]
        rfl
      rw [declaresNothing]
      simpa using declared.readNumbers inForce read

/-- What some lines do to the counts and to the literals. -/
theorem IsDeclared.readLines {lines : List (List Char)} (declared : reader.IsDeclared counts)
    (read : Reader.readLines lines reader = .ok after) :
    after.IsDeclared (counts ++ lines.filterMap declaredCount?) := by
  induction lines generalizing reader counts with
  | nil =>
      cases read
      simpa using declared
  | cons line rest ih =>
      rw [Reader.readLines] at read
      split at read
      · cases read
      · rename_i next first
        have later := ih (declared.readLine first) read
        rw [List.filterMap_cons]
        cases counted : declaredCount? line with
        | none => simpa [counted] using later
        | some count => simpa [counted] using later

end Reader

/-- A problem that is read has the last count that its text declares, and its
literals are within one of the declared counts. -/
theorem Problem.isWithin_of_parse {text : String} {problem : Problem}
    (read : Problem.parse text = .ok problem) :
    (declaredCounts text).getLast? = some problem.variableCount ∧
      ∀ clause ∈ problem.clauses, ∀ literal ∈ clause, IsWithin (declaredCounts text) literal := by
  unfold Problem.parse at read
  split at read
  · cases read
  · rename_i reader lines
    have declared := Reader.isDeclared_start.readLines lines
    rw [List.nil_append] at declared
    unfold Reader.finish at read
    split at read
    · cases read
    · rename_i variableCount clauseCount isHeader
      split at read
      · cases read
      · split at read
        · cases read
        · cases read
          refine ⟨?_, fun clause mem => declared.clauses clause (List.mem_reverse.mp mem)⟩
          rw [declaredCounts, ← declared.header, isHeader]
          rfl

end Entailment.Dimacs
