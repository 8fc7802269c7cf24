import Entailment.Dimacs.Reader
import Entailment.Proofs.Text.Layout

/-!
# A written problem is read back

The text of a problem has a problem line, a comment line for each name and a line
for each clause.  Read line by line it gives the problem again, provided that the
variables of the clauses are declared, the numbers fit into the words that the
reader has for them, and no name has a line feed.
-/

namespace Entailment.Dimacs

open Text (IsWord unlines signedDigits)

variable {problem : Problem} {names : List (Nat × String)}

/-! ## The lines of a problem -/

/-- The problem line. -/
def problemLine (problem : Problem) : List Char :=
  [['p'], ['c', 'n', 'f'], Nat.toDigits 10 problem.variableCount].flatMap (· ++ [' ']) ++
    Nat.toDigits 10 problem.clauses.length

theorem areWords_problemLine (problem : Problem) :
    ∀ word ∈ [['p'], ['c', 'n', 'f'], Nat.toDigits 10 problem.variableCount], IsWord word := by
  intro word mem
  simp only [List.mem_cons, List.not_mem_nil, or_false] at mem
  rcases mem with rfl | rfl | rfl
  · exact ⟨by simp, by simp [Text.isBlank]⟩
  · exact ⟨by simp, by simp [Text.isBlank]⟩
  · exact Text.isWord_toDigits _

/-- The comment line of a name, after its first character. -/
def commentLine (entry : Nat × String) : List Char :=
  ' ' :: (entry.2.toList ++ ([' ', '-', '>', ' ', '#'] ++ Nat.toDigits 10 entry.1))

/-- The line of a clause. -/
def numbersLine (clause : List (Literal Nat)) : List Char :=
  (clause.map fun literal => signedDigits (literalNumber literal)).flatMap (· ++ [' ']) ++ ['0']

theorem areWords_numbersLine (clause : List (Literal Nat)) :
    ∀ word ∈ clause.map fun literal => signedDigits (literalNumber literal), IsWord word := by
  intro word mem
  obtain ⟨literal, -, rfl⟩ := List.mem_map.mp mem
  exact Text.isWord_signedDigits _

theorem isWord_zero : IsWord ['0'] := ⟨by simp, by simp [Text.isBlank]⟩

theorem toList_clauseLine (clause : List (Literal Nat)) :
    (clauseLine clause).toList = numbersLine clause ++ ['\n'] := by
  simp [clauseLine, numbersLine, List.flatMap_map]

theorem toList_comments (names : List (Nat × String)) :
    (String.join (names.map fun (number, name) =>
      "c " ++ name ++ " -> #" ++ toString number ++ "\n")).toList =
        unlines (names.map fun entry => 'c' :: commentLine entry) := by
  simp [unlines, commentLine, List.flatMap_map]

/-- The text of a problem, as lines. -/
theorem toList_render (problem : Problem) (names : List (Nat × String)) :
    (problem.render names).toList =
      unlines (problemLine problem :: (names.map fun entry => 'c' :: commentLine entry) ++
        problem.clauses.map numbersLine) := by
  have clauses : (String.join (problem.clauses.map clauseLine)).toList =
      unlines (problem.clauses.map numbersLine) := by
    simp [unlines, List.flatMap_map, toList_clauseLine]
  rw [Problem.render, String.toList_append, String.toList_append, toList_comments, clauses,
    List.cons_append, Text.unlines_cons, Text.unlines_append]
  simp [problemLine]

/-! ## Reading the lines -/

namespace Reader

variable {variableCount : Nat} {reader : Reader}

/-- A comment line is skipped, whatever it says. -/
theorem readLine_comment (rest : List Char) (reader : Reader) :
    reader.readLine ('c' :: rest) = .ok reader := by
  obtain ⟨kept, trimmed⟩ := @Text.exists_trim_cons 'c' rfl rest
  simp only [readLine, trimmed]

theorem readLines_comments (names : List (Nat × String)) (rest : List (List Char))
    (reader : Reader) :
    readLines ((names.map fun entry => 'c' :: commentLine entry) ++ rest) reader =
      readLines rest reader := by
  induction names with
  | nil => rfl
  | cons entry others ih =>
      rw [List.map_cons, List.cons_append, readLines, readLine_comment]
      exact ih

/-- The words of the problem line. -/
theorem exists_trim_problemLine (problem : Problem) :
    ∃ kept, Text.trim (problemLine problem) = 'p' :: kept ∧
      Text.words ('p' :: kept) = [['p'], ['c', 'n', 'f'],
        Nat.toDigits 10 problem.variableCount, Nat.toDigits 10 problem.clauses.length] := by
  obtain ⟨kept, trimmed⟩ := @Text.exists_trim_cons 'p' rfl
    (([' ', 'c', 'n', 'f', ' '] ++ Nat.toDigits 10 problem.variableCount ++ [' ']) ++
      Nat.toDigits 10 problem.clauses.length)
  have isLine : problemLine problem = 'p' :: (([' ', 'c', 'n', 'f', ' '] ++
      Nat.toDigits 10 problem.variableCount ++ [' ']) ++
        Nat.toDigits 10 problem.clauses.length) := by
    simp [problemLine]
  rw [← isLine] at trimmed
  refine ⟨kept, trimmed, ?_⟩
  rw [← trimmed, Text.words_trim]
  exact Text.words_flatMap_append (areWords_problemLine problem) (Text.isWord_toDigits _)

/-- The problem line declares the variables and the clauses. -/
theorem readLine_problemLine {problem : Problem} (reader : Reader)
    (fewVariables : problem.variableCount ≤ Text.largest32)
    (fewClauses : problem.clauses.length ≤ Text.largest64) :
    reader.readLine (problemLine problem) =
      .ok { reader with header := some (problem.variableCount, problem.clauses.length) } := by
  obtain ⟨kept, trimmed, words⟩ := exists_trim_problemLine problem
  rw [readLine, trimmed]
  simp only [readProblemLine, words, Text.natural?_toDigits fewVariables,
    Text.natural?_toDigits fewClauses]

/-- Counts that are too large are refused. -/
theorem few_of_readLine_problemLine {problem : Problem} {after : Reader}
    (read : reader.readLine (problemLine problem) = .ok after) :
    problem.variableCount ≤ Text.largest32 ∧ problem.clauses.length ≤ Text.largest64 := by
  obtain ⟨kept, trimmed, words⟩ := exists_trim_problemLine problem
  rw [readLine, trimmed] at read
  simp only [readProblemLine, words, Text.natural?_toDigits_eq] at read
  by_cases fewVariables : problem.variableCount ≤ Text.largest32
  · by_cases fewClauses : problem.clauses.length ≤ Text.largest64
    · exact ⟨fewVariables, fewClauses⟩
    · simp [fewVariables, fewClauses] at read
  · simp [fewVariables] at read

theorem natAbs_literalNumber (literal : Literal Nat) :
    (literalNumber literal).natAbs = literal.atom := by
  unfold literalNumber
  split <;> simp

theorem sign_literalNumber {literal : Literal Nat} (positive : 0 < literal.atom) :
    Sign.ofInversion (decide (literalNumber literal < 0)) = literal.sign := by
  obtain ⟨v, sign⟩ := literal
  have notNegative : ¬Int.ofNat v < 0 := by
    simp only [Int.ofNat_eq_natCast]
    omega
  have isNegative : -Int.ofNat v < 0 := by
    simp only [Int.ofNat_eq_natCast] at positive ⊢
    omega
  cases sign with
  | positive => simp only [literalNumber, notNegative, decide_false, Sign.ofInversion, if_false,
      Bool.false_eq_true]
  | negative => simp only [literalNumber, isNegative, decide_true, Sign.ofInversion, if_true]

/-- The number of a declared literal is read as this literal. -/
theorem readNumber_literal {literal : Literal Nat} (reader : Reader) (positive : 0 < literal.atom)
    (declared : literal.atom ≤ variableCount) (fewVariables : variableCount ≤ Text.largest32) :
    reader.readNumber variableCount (signedDigits (literalNumber literal)) =
      .ok { reader with current := literal :: reader.current } := by
  have small : literal.atom ≤ 0xFFFFFFFF := Nat.le_trans declared fewVariables
  have isNumber := natAbs_literalNumber literal
  have notLarge : ¬Text.largest32 < literal.atom := Nat.not_lt.mpr small
  have notZero : literalNumber literal ≠ 0 := by omega
  have read := @Text.integer?_signedDigits (-0x8000000000000000) 0x7FFFFFFFFFFFFFFF
    (literalNumber literal) (by omega) (by omega)
  simp only [readNumber, read, notZero, if_false, isNumber, sign_literalNumber positive, notLarge,
    Nat.not_lt.mpr declared]

/-- The numbers of a clause are read as its literals, and zero ends it. -/
theorem readNumbers_clause {clause : List (Literal Nat)} (reader : Reader)
    (declared : ∀ literal ∈ clause, 0 < literal.atom ∧ literal.atom ≤ variableCount)
    (fewVariables : variableCount ≤ Text.largest32) :
    readNumbers variableCount
        ((clause.map fun literal => signedDigits (literalNumber literal)) ++ [['0']]) reader =
      .ok { reader with
        clauses := (reader.current.reverse ++ clause) :: reader.clauses, current := [] } := by
  induction clause generalizing reader with
  | nil =>
      have zero : Text.integer? (-0x8000000000000000) 0x7FFFFFFFFFFFFFFF ['0'] = some 0 := by rfl
      simp [readNumbers, readNumber, zero]
  | cons literal rest ih =>
      obtain ⟨positive, bound⟩ := declared literal (List.mem_cons_self ..)
      rw [List.map_cons, List.cons_append, readNumbers,
        readNumber_literal reader positive bound fewVariables]
      simp only
      rw [ih _ fun other mem => declared other (List.mem_cons_of_mem _ mem)]
      simp

/-- The line of a clause starts with a digit or a sign. -/
theorem exists_numbersLine_cons (clause : List (Literal Nat)) :
    ∃ c rest, numbersLine clause = c :: rest ∧ Text.isBlank c = false ∧ c ≠ 'c' ∧ c ≠ 'p' := by
  cases clause with
  | nil => exact ⟨'0', [], rfl, rfl, by decide, by decide⟩
  | cons literal rest =>
      obtain ⟨c, digits, written, -, -, notC, notP⟩ :=
        Text.exists_toDigits_cons (literalNumber literal).natAbs
      have isWord := Text.isWord_signedDigits (literalNumber literal)
      have starts : ∃ c digits, signedDigits (literalNumber literal) = c :: digits ∧ c ≠ 'c' ∧
          c ≠ 'p' := by
        unfold signedDigits
        split
        · exact ⟨'-', _, rfl, by decide, by decide⟩
        · exact ⟨c, digits, written, notC, notP⟩
      obtain ⟨c, digits, written, notC, notP⟩ := starts
      rw [written] at isWord
      refine ⟨c, digits ++ [' '] ++ numbersLine rest, ?_,
        isWord.noBlank c (List.mem_cons_self ..), notC, notP⟩
      simp [numbersLine, written]

/-- The line of a clause is read as this clause. -/
theorem readLine_clause {clause : List (Literal Nat)} {clauseCount : Nat}
    (header : reader.header = some (variableCount, clauseCount)) (closed : reader.current = [])
    (declared : ∀ literal ∈ clause, 0 < literal.atom ∧ literal.atom ≤ variableCount)
    (fewVariables : variableCount ≤ Text.largest32) :
    reader.readLine (numbersLine clause) =
      .ok { reader with clauses := clause :: reader.clauses } := by
  obtain ⟨c, rest, isLine, notBlank, notC, notP⟩ := exists_numbersLine_cons clause
  obtain ⟨kept, trimmed⟩ := Text.exists_trim_cons notBlank rest
  have words : Text.words (c :: kept) =
      (clause.map fun literal => signedDigits (literalNumber literal)) ++ [['0']] := by
    rw [← trimmed, Text.words_trim, ← isLine]
    exact Text.words_flatMap_append (areWords_numbersLine clause) isWord_zero
  have read := readNumbers_clause reader declared fewVariables
  rw [closed] at read
  rw [isLine]
  simp only [readLine, trimmed, List.cons.injEq, notC, notP, false_and, imp_false,
    not_false_eq_true, implies_true, header, words, read]
  simp [closed]

/-- The lines of clauses are read one after the other. -/
theorem readLines_clauses {clauses : List (List (Literal Nat))} {clauseCount : Nat}
    (header : reader.header = some (variableCount, clauseCount)) (closed : reader.current = [])
    (declared : ∀ clause ∈ clauses, ∀ literal ∈ clause, 0 < literal.atom ∧ literal.atom ≤
      variableCount) (fewVariables : variableCount ≤ Text.largest32) (rest : List (List Char)) :
    readLines (clauses.map numbersLine ++ rest) reader =
      readLines rest { reader with clauses := clauses.reverse ++ reader.clauses } := by
  induction clauses generalizing reader with
  | nil => rfl
  | cons clause others ih =>
      rw [List.map_cons, List.cons_append, readLines,
        readLine_clause header closed (declared clause (List.mem_cons_self ..)) fewVariables]
      simp only
      rw [@ih { reader with clauses := clause :: reader.clauses } header closed
        fun other mem => declared other (List.mem_cons_of_mem _ mem)]
      simp

end Reader

/-- The lines of the text of a problem. -/
theorem Problem.lines_render (oneLine : ∀ entry ∈ names, '\n' ∉ entry.2.toList) :
    Text.lines (problem.render names).toList =
      (problemLine problem :: (names.map fun entry => 'c' :: commentLine entry) ++
        problem.clauses.map numbersLine) ++ [[]] := by
  rw [toList_render]
  apply Text.lines_unlines
  intro line mem
  simp only [List.mem_append, List.mem_cons, List.mem_map] at mem
  rcases mem with (rfl | ⟨entry, entryMem, rfl⟩) | ⟨clause, -, rfl⟩
  · exact Text.lineFeed_not_mem (areWords_problemLine problem) (Text.isWord_toDigits _)
  · have notInNumber := @Text.lineFeed_not_mem [] _ (by simp) (Text.isWord_toDigits entry.1)
    simpa [commentLine, oneLine entry entryMem] using notInNumber
  · exact Text.lineFeed_not_mem (areWords_numbersLine clause) isWord_zero

/-- A problem that is written with names is read back. -/
theorem Problem.parse_render
    (declared : ∀ clause ∈ problem.clauses, ∀ literal ∈ clause, 0 < literal.atom ∧ literal.atom ≤
      problem.variableCount) (fewVariables : problem.variableCount ≤ Text.largest32)
    (fewClauses : problem.clauses.length ≤ Text.largest64)
    (oneLine : ∀ entry ∈ names, '\n' ∉ entry.2.toList) :
    Problem.parse (problem.render names) = .ok problem := by
  rw [Problem.parse, lines_render oneLine, List.cons_append,
    List.cons_append, Reader.readLines, Reader.readLine_problemLine _ fewVariables fewClauses]
  simp only
  rw [List.append_assoc, Reader.readLines_comments,
    Reader.readLines_clauses rfl rfl declared fewVariables]
  simp [Reader.readLines, Reader.readLine, Text.trim, Text.trimEnd, Reader.finish, Reader.start]

/-- A problem whose text can be read has few variables and clauses. -/
theorem Problem.few_of_parse_render {other : Problem}
    (oneLine : ∀ entry ∈ names, '\n' ∉ entry.2.toList)
    (read : Problem.parse (problem.render names) = .ok other) :
    problem.variableCount ≤ Text.largest32 ∧ problem.clauses.length ≤ Text.largest64 := by
  rw [Problem.parse, lines_render oneLine, List.cons_append, List.cons_append,
    Reader.readLines] at read
  cases first : Reader.start.readLine (problemLine problem) with
  | error error =>
      rw [first] at read
      cases read
  | ok reader => exact Reader.few_of_readLine_problemLine first

end Entailment.Dimacs
