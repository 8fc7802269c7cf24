import Entailment.Dimacs.Problem
import Entailment.Text.Blank
import Entailment.Text.Numeral

/-!
# Reading DIMACS problems

The reader takes a text line by line.  Blank lines and lines that start with
`c` are skipped, a line that starts with `p` is a problem line, and every other
line holds numbers.  A clause may go over several lines.

A later problem line replaces an earlier one.  The variables of a clause are
compared with the problem line in force when the clause is read, and the number
of clauses with the last one.
-/

namespace Entailment.Dimacs

/-- What has been read of a problem.  Clauses and the literals of the clause
that is still open stand last one first. -/
structure Reader where
  header : Option (Nat × Nat)
  clauses : List (List (Literal Nat))
  current : List (Literal Nat)
  deriving DecidableEq

namespace Reader

/-- Nothing has been read. -/
def start : Reader := ⟨none, [], []⟩

/-- Read a problem line. -/
def readProblemLine (line : List Char) (reader : Reader) : Except Error Reader :=
  match Text.words line with
  | [_, ['c', 'n', 'f'], vars, clauses] =>
      match Text.natural? Text.largest32 vars with
      | none => .error (.oracle (.invalidVariableCount (String.ofList vars)))
      | some variableCount =>
          match Text.natural? Text.largest64 clauses with
          | none => .error (.oracle (.invalidClauseCount (String.ofList clauses)))
          | some clauseCount => .ok { reader with header := some (variableCount, clauseCount) }
  | _ => .error (.oracle (.malformedProblemLine (String.ofList line)))

/-- Read one number of a clause, when `variableCount` variables are declared. -/
def readNumber (variableCount : Nat) (numeral : List Char) (reader : Reader) :
    Except Error Reader :=
  match Text.integer? (-0x8000000000000000) 0x7FFFFFFFFFFFFFFF numeral with
  | none => .error (.oracle (.invalidLiteral (String.ofList numeral)))
  | some value =>
      if value = 0 then
        .ok { reader with clauses := reader.current.reverse :: reader.clauses, current := [] }
      else
        let literal : Literal Nat := ⟨value.natAbs, Sign.ofInversion (value < 0)⟩
        if Text.largest32 < literal.atom then
          .error (.oracle (.literalOutOfRange value))
        else if variableCount < literal.atom then
          .error (.oracle (.undeclaredVariable literal.atom variableCount))
        else .ok { reader with current := literal :: reader.current }

/-- Read the numbers of a line from left to right. -/
def readNumbers (variableCount : Nat) : List (List Char) → Reader → Except Error Reader
  | [], reader => .ok reader
  | numeral :: rest, reader =>
      match reader.readNumber variableCount numeral with
      | .error error => .error error
      | .ok reader => readNumbers variableCount rest reader

/-- Read a line. -/
def readLine (line : List Char) (reader : Reader) : Except Error Reader :=
  match Text.trim line with
  | [] => .ok reader
  | 'c' :: _ => .ok reader
  | 'p' :: rest => reader.readProblemLine ('p' :: rest)
  | line =>
      match reader.header with
      | none => .error (.oracle .clauseBeforeProblemLine)
      | some (variableCount, _) => readNumbers variableCount (Text.words line) reader

/-- Read lines one after another. -/
def readLines : List (List Char) → Reader → Except Error Reader
  | [], reader => .ok reader
  | line :: rest, reader =>
      match reader.readLine line with
      | .error error => .error error
      | .ok reader => readLines rest reader

/-- The problem that has been read when the text ends. -/
def finish (reader : Reader) : Except Error Problem :=
  match reader.header with
  | none => .error (.oracle .missingProblemLine)
  | some (variableCount, clauseCount) =>
      if reader.current ≠ [] then .error (.oracle .unterminatedClause)
      else if reader.clauses.length ≠ clauseCount then
        .error (.oracle (.clauseCount clauseCount reader.clauses.length))
      else .ok ⟨variableCount, reader.clauses.reverse⟩

end Reader

/-- Read a DIMACS problem. -/
def Problem.parse (text : String) : Except Error Problem :=
  match Reader.readLines (Text.lines text.toList) .start with
  | .error error => .error error
  | .ok reader => reader.finish

end Entailment.Dimacs
