import Entailment.FirstOrder.Lexeme
import Entailment.FirstOrder.Surface

/-!
# Reading written formulas

The connectives bind in the order `^`, `|`, `=>`, `<=>`, the first tightest.
`^` and `|` associate to the left and `=>` to the right, while `<=>` stands at
most once between two parentheses.  A negation applies to what follows it
directly, and a quantifier to everything up to the next closing parenthesis
that it does not open itself.  A bare `T` or `F` is a truth constant, unless it
is a side of an equation.

A formula is a row of operands with connectives between them.  The reader keeps
the operands whose right neighbour has not come yet in a `Pending` formula, one
place for each connective, and closes the tighter places when a looser
connective comes.

Each reader returns what it has read and the lexemes that are left.  Readers
call each other to a depth that is bounded by the number of lexemes, and this
bound is handed down from call to call.
-/

namespace Entailment.FirstOrder

/-- What a reader has read, and what is left. -/
abbrev Reading (α : Type) := Except Error (α × List Lexeme)

/-- The position of the next lexeme, or `stop` at the end of the text. -/
def nextPosition (stop : Nat) : List Lexeme → Nat
  | [] => stop
  | lexeme :: _ => lexeme.position

/-- The failure to read a text of which nothing is left. -/
def endOfText {α : Type} (stop : Nat) : Reading α :=
  .error (.parse stop .unexpectedEnd)

/-! ## Terms -/

mutual

/-- Read a term. -/
def readTerm (stop : Nat) : Nat → List Lexeme → Reading SurfaceTerm
  | 0, _ => endOfText stop
  | depth + 1, lexemes =>
      match lexemes with
      | [] => endOfText stop
      | ⟨_, .var name⟩ :: rest => .ok (.var name, rest)
      | ⟨_, .word name⟩ :: rest =>
          match readArgs stop depth rest with
          | .error error => .error error
          | .ok (args, rest) => .ok (.app name args, rest)
      | lexeme :: _ => .error (.parse lexeme.position .expectedTerm)

/-- Read the arguments after a name, of which there may be none. -/
def readArgs (stop : Nat) : Nat → List Lexeme → Reading (List SurfaceTerm)
  | 0, _ => endOfText stop
  | depth + 1, lexemes =>
      match lexemes with
      | ⟨_, .openParen⟩ :: rest => readTerms stop depth rest
      | lexemes => .ok ([], lexemes)

/-- Read terms with commas between them up to a closing parenthesis. -/
def readTerms (stop : Nat) : Nat → List Lexeme → Reading (List SurfaceTerm)
  | 0, _ => endOfText stop
  | depth + 1, lexemes =>
      match readTerm stop depth lexemes with
      | .error error => .error error
      | .ok (first, ⟨_, .closeParen⟩ :: rest) => .ok ([first], rest)
      | .ok (first, ⟨_, .comma⟩ :: rest) =>
          match readTerms stop depth rest with
          | .error error => .error error
          | .ok (others, rest) => .ok (first :: others, rest)
      | .ok (_, []) => .error (.parse stop .unclosedOpen)
      | .ok (_, lexeme :: _) => .error (.parse lexeme.position .expectedTerm)

end

/-- Read the rest of an equation after its left side.  An equation with `~=` is
a negated one. -/
def readEquation (stop depth : Nat) (left : SurfaceTerm) (lexemes : List Lexeme) :
    Reading SurfaceFormula :=
  match lexemes with
  | ⟨_, .equal⟩ :: rest =>
      match readTerm stop depth rest with
      | .error error => .error error
      | .ok (right, rest) => .ok (.atom (.equation left right), rest)
  | ⟨_, .notEqual⟩ :: rest =>
      match readTerm stop depth rest with
      | .error error => .error error
      | .ok (right, rest) => .ok (.not (.atom (.equation left right)), rest)
  | lexemes => .error (.parse (nextPosition stop lexemes) .expectedTerm)

/-- Whether the next lexeme is a sign of equality. -/
def startsEquation : List Lexeme → Bool
  | ⟨_, .equal⟩ :: _ => true
  | ⟨_, .notEqual⟩ :: _ => true
  | _ => false

/-- The formula of a predicate name with arguments. -/
def SurfaceFormula.ofName (name : String) (args : List SurfaceTerm) : SurfaceFormula :=
  match args with
  | [] =>
      if name = "T" then .truth true
      else if name = "F" then .truth false
      else .atom (.predicate name [])
  | args => .atom (.predicate name args)

/-- Read the rest of an atom or an equation after the name it starts with. -/
def readAtom (stop depth : Nat) (name : String) (lexemes : List Lexeme) :
    Reading SurfaceFormula :=
  match readArgs stop depth lexemes with
  | .error error => .error error
  | .ok (args, rest) =>
      if startsEquation rest then readEquation stop depth (.app name args) rest
      else .ok (.ofName name args, rest)

/-! ## Pending formulas -/

/-- A formula whose last operand may still grow to the right.  The left sides of
the connectives that wait for their right side are kept apart: of `<=>`, of each
`=>` with the nearest first, and of `|`. -/
structure Pending where
  equivalence : Option SurfaceFormula
  antecedents : List SurfaceFormula
  disjunction : Option SurfaceFormula
  conjunction : SurfaceFormula

namespace Pending

/-- A formula that so far is one operand. -/
def start (operand : SurfaceFormula) : Pending := ⟨none, [], none, operand⟩

/-- The disjunction that ends here. -/
def closeDisjunction (pending : Pending) : SurfaceFormula :=
  match pending.disjunction with
  | none => pending.conjunction
  | some left => .binary .or left pending.conjunction

/-- The implication that ends here. -/
def closeImplication (pending : Pending) : SurfaceFormula :=
  pending.antecedents.foldl (fun right left => .binary .implies left right)
    pending.closeDisjunction

/-- The whole formula, which ends here. -/
def close (pending : Pending) : SurfaceFormula :=
  match pending.equivalence with
  | none => pending.closeImplication
  | some left => .binary .equiv left pending.closeImplication

/-- Add a connective and the operand after it. -/
def extend (connective : Connective) (operand : SurfaceFormula) (pending : Pending) : Pending :=
  match connective with
  | .and => { pending with conjunction := .binary .and pending.conjunction operand }
  | .or => { pending with disjunction := some pending.closeDisjunction, conjunction := operand }
  | .implies =>
      { pending with
        antecedents := pending.closeDisjunction :: pending.antecedents
        disjunction := none
        conjunction := operand }
  | .equiv => ⟨some pending.closeImplication, [], none, operand⟩

end Pending

/-! ## Formulas -/

/-- The error of lexemes that are left over after a complete formula. -/
def leftover (stop : Nat) : List Lexeme → Error
  | [] => .parse stop .unclosedOpen
  | ⟨position, .closeParen⟩ :: _ => .parse position .unmatchedClose
  | ⟨position, .word _⟩ :: _ => .parse position (.malformedSubformula 2 0)
  | ⟨position, .var _⟩ :: _ => .parse position (.malformedSubformula 2 0)
  | ⟨position, .openParen⟩ :: _ => .parse position (.malformedSubformula 2 0)
  | ⟨position, _⟩ :: _ => .parse position .mixedConnectives

mutual

/-- Read a formula as far as it goes. -/
def readFormula (stop : Nat) : Nat → List Lexeme → Reading SurfaceFormula
  | 0, _ => endOfText stop
  | depth + 1, lexemes =>
      match readOperand stop depth lexemes with
      | .error error => .error error
      | .ok (operand, rest) => readChain stop depth (.start operand) rest

/-- Read connectives and operands as far as they go, after a pending formula. -/
def readChain (stop : Nat) : Nat → Pending → List Lexeme → Reading SurfaceFormula
  | 0, _, _ => endOfText stop
  | depth + 1, pending, lexemes =>
      match lexemes with
      | ⟨position, .connective connective⟩ :: rest =>
          if connective = .equiv ∧ pending.equivalence.isSome then
            .error (.parse position (.equivalenceArity 3))
          else
            match readOperand stop depth rest with
            | .error error => .error error
            | .ok (operand, rest) =>
                readChain stop depth (pending.extend connective operand) rest
      | lexemes => .ok (pending.close, lexemes)

/-- Read one operand of a connective. -/
def readOperand (stop : Nat) : Nat → List Lexeme → Reading SurfaceFormula
  | 0, _ => endOfText stop
  | depth + 1, lexemes =>
      match lexemes with
      | [] => endOfText stop
      | ⟨_, .negation⟩ :: rest =>
          match readOperand stop depth rest with
          | .error error => .error error
          | .ok (body, rest) => .ok (.not body, rest)
      | ⟨_, .quantifier quantifier⟩ :: ⟨_, .var name⟩ :: rest =>
          match readFormula stop depth rest with
          | .error error => .error error
          | .ok (body, rest) => .ok (.quantified quantifier name body, rest)
      | ⟨_, .quantifier _⟩ :: other :: _ => .error (.parse other.position .expectedVariable)
      | [⟨position, .quantifier _⟩] => .error (.parse position .expectedVariable)
      | ⟨_, .openParen⟩ :: rest =>
          match readFormula stop depth rest with
          | .error error => .error error
          | .ok (inner, ⟨_, .closeParen⟩ :: rest) => .ok (inner, rest)
          | .ok (_, rest) => .error (leftover stop rest)
      | ⟨_, .var name⟩ :: rest => readEquation stop depth (.var name) rest
      | ⟨_, .word name⟩ :: rest => readAtom stop depth name rest
      | ⟨position, .connective _⟩ :: _ => .error (.parse position .mixedConnectives)
      | ⟨position, .closeParen⟩ :: _ => .error (.parse position .unmatchedClose)
      | ⟨position, .comma⟩ :: _ => .error (.parse position (.unexpectedChar ','))
      | ⟨position, _⟩ :: _ => .error (.parse position .expectedTerm)

end

/-- A depth that reading a number of lexemes never exceeds: between two calls
without a lexeme read at most one other call comes. -/
def readingDepth (lexemes : List Lexeme) : Nat := 2 * lexemes.length + 2

/-- Read a complete formula from its lexemes. -/
def SurfaceFormula.ofLexemes (stop : Nat) (lexemes : List Lexeme) : Except Error SurfaceFormula :=
  match readFormula stop (readingDepth lexemes) lexemes with
  | .error error => .error error
  | .ok (formula, []) => .ok formula
  | .ok (_, rest) => .error (leftover stop rest)

/-- Read a complete formula. -/
def SurfaceFormula.parse (text : String) : Except Error SurfaceFormula :=
  match Lexeme.scan 0 text.toList with
  | .error error => .error error
  | .ok lexemes => SurfaceFormula.ofLexemes text.utf8ByteSize lexemes

end Entailment.FirstOrder
