import Entailment.Error
import Entailment.Text.Blank

/-!
# Reading propositional formulas

A propositional formula is read level by level.  A level is what stands between
two matching parentheses, or the whole text.  It is a row of operands with
connectives between them, and all its connectives are of one kind: `a ^ b ^ c`
is a level and `a ^ b | c` is not.  An operand is a truth constant, a name or a
level in parentheses, with negations in front of it.

A chain `a => b => c` says that `a` and `b` together imply `c`, and `<=>` stands
between exactly two operands.  The letters `T` and `F` are truth constants
wherever they stand, so they cannot be part of a name.

The text is read from left to right in one pass.  A `Level` holds what has been
read of the innermost open level, and the levels around it wait in a list.
Positions count characters.
-/

namespace Entailment.Propositional

/-- A propositional formula: its atoms are names and it binds nothing. -/
abbrev Proposition := Formula Empty String

/-- What has been read of a level that is still open.  Operands and the
characters of a name that is being read stand last one first. -/
structure Level where
  connective : Option Connective
  connectives : Nat
  operands : List Proposition
  negated : Bool
  name : Option (List Char)
  deriving DecidableEq

namespace Level

/-- A level of which nothing has been read. -/
def start : Level := ⟨none, 0, [], false, none⟩

/-- Add an operand, under the negations that stand in front of it. -/
def push (operand : Proposition) (level : Level) : Level :=
  { level with
    operands := (if level.negated then .not operand else operand) :: level.operands
    negated := false }

/-- End the name that is being read.  A negation without an operand is an
error. -/
def endName (position : Nat) (level : Level) : Except Error Level :=
  match level.name with
  | some name => .ok ({ level with name := none }.push (.atom (String.ofList name.reverse)))
  | none => if level.negated then .error (.parse position .danglingNegation) else .ok level

/-- Read a connective that starts at `position`. -/
def addConnective (connective : Connective) (position : Nat) (level : Level) :
    Except Error Level := do
  let level ← level.endName position
  let added := { level with connective := some connective, connectives := level.connectives + 1 }
  match level.connective with
  | none => return added
  | some other =>
      if other = connective then return added
      else throw (.parse position .mixedConnectives)

/-- The formula of a level that ends at `position`. -/
def finish (position : Nat) (level : Level) : Except Error Proposition := do
  let level ← level.endName position
  let operands := level.operands.reverse
  let malformed : Error :=
    .parse position (.malformedSubformula operands.length level.connectives)
  match level.connective with
  | none =>
      match operands with
      | [operand] => return operand
      | _ => throw malformed
  | some connective =>
      if operands.length ≠ level.connectives + 1 then throw malformed
      else
        match connective with
        | .and => return .conjunction operands
        | .or => return .disjunction operands
        | .implies => return .implication operands
        | .equiv =>
            match operands with
            | [left, right] => return .binary .equiv left right
            | _ => throw (.parse position (.equivalenceArity operands.length))

end Level

/-- Read the rest of a text that goes on at `position`.  `level` is the
innermost open level and `outer` are the levels around it, the nearest first. -/
def readLevels (level : Level) (outer : List Level) (position : Nat) :
    List Char → Except Error Proposition
  | [] =>
      match outer with
      | [] => level.finish position
      | _ :: _ => .error (.parse position .unclosedOpen)
  | '(' :: rest =>
      match level.name with
      | some _ => .error (.parse position (.unexpectedChar '('))
      | none => readLevels .start (level :: outer) (position + 1) rest
  | ')' :: rest =>
      match outer with
      | [] => .error (.parse position .unmatchedClose)
      | parent :: outer =>
          match level.finish position with
          | .error error => .error error
          | .ok formula => readLevels (parent.push formula) outer (position + 1) rest
  | '~' :: rest =>
      match level.name with
      | some _ => .error (.parse position (.unexpectedChar '~'))
      | none =>
          readLevels { level with negated := !level.negated } outer (position + 1) rest
  | '<' :: '=' :: '>' :: rest =>
      match level.addConnective .equiv position with
      | .error error => .error error
      | .ok level => readLevels level outer (position + 3) rest
  | '<' :: '=' :: _ => .error (.parse (position + 2) .malformedEquivalence)
  | '<' :: _ => .error (.parse (position + 1) .malformedEquivalence)
  | '=' :: '>' :: rest =>
      match level.addConnective .implies position with
      | .error error => .error error
      | .ok level => readLevels level outer (position + 2) rest
  | '=' :: _ => .error (.parse (position + 1) .malformedImplication)
  | '^' :: rest =>
      match level.addConnective .and position with
      | .error error => .error error
      | .ok level => readLevels level outer (position + 1) rest
  | '|' :: rest =>
      match level.addConnective .or position with
      | .error error => .error error
      | .ok level => readLevels level outer (position + 1) rest
  | c :: rest =>
      if c = 'T' ∨ c = 'F' then
        match level.name with
        | some _ => .error (.parse position (.truthConstantInLiteral c))
        | none => readLevels (level.push (.truth (c = 'T'))) outer (position + 1) rest
      else if Text.isBlank c then
        match level.endName position with
        | .error error => .error error
        | .ok level => readLevels level outer (position + 1) rest
      else
        readLevels { level with name := some (c :: level.name.getD []) } outer
          (position + 1) rest

/-- Read a propositional formula. -/
def Proposition.parse (text : String) : Except Error Proposition :=
  readLevels .start [] 0 text.toList

/-- Write a propositional formula. -/
def Proposition.render (formula : Proposition) : String :=
  Formula.render (fun binder => nomatch binder) id formula

end Entailment.Propositional
