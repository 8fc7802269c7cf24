import Entailment.Formula.Basic

/-!
# What can go wrong

Every failure is a value that names its cause.  The wording of a cause is given
once, by the function `message` of its type.

* A `ParseError` is a fault of the text that was read.  It is recoverable: the
  knowledge base is left as it was, and another text may be tried.
* An `InvariantError` is a stage of the prover that was handed something the
  stage before it never produces.
* An `OracleError` is a fault of a DIMACS problem, or of the solver that was
  asked about it.
* A `FileError` is a fault of the file that holds the axioms.
-/

namespace Entailment

/-- The ways in which a formula can be misspelt. -/
inductive ParseError where
  | unexpectedChar (c : Char)
  | unexpectedEnd
  | unmatchedClose
  | unclosedOpen
  | malformedImplication
  | malformedEquivalence
  | mixedConnectives
  | danglingNegation
  | truthConstantInLiteral (c : Char)
  | malformedSubformula (operands connectives : Nat)
  | equivalenceArity (operands : Nat)
  | expectedTerm
  | expectedVariable
  deriving DecidableEq, Repr

/-- The wording of a parse error. -/
def ParseError.message : ParseError → String
  | unexpectedChar c => "unexpected character `" ++ c.toString ++ "`"
  | unexpectedEnd => "unexpected end of input"
  | unmatchedClose => "`)` without matching `(`"
  | unclosedOpen => "`(` is never closed"
  | malformedImplication => "`=` must be followed by `>`"
  | malformedEquivalence => "`<` must be followed by `=>`"
  | mixedConnectives => "^, |, => and <=> mixed at the same level"
  | danglingNegation => "`~` must be followed directly by a literal or `(`"
  | truthConstantInLiteral c => "truth constant `" ++ c.toString ++ "` inside a literal name"
  | malformedSubformula operands connectives =>
      "malformed subformula with " ++ toString operands ++ " operand(s) and " ++
        toString connectives ++ " connective(s)"
  | equivalenceArity operands =>
      "<=> takes exactly two operands, found " ++ toString operands
  | expectedTerm => "expected a term"
  | expectedVariable => "expected a variable after the quantifier"

/-- The conditions that hold between the stages of the prover.  Predicates and
clauses are named by their numbers. -/
inductive InvariantError where
  | connectiveInNegationNormalForm (connective : Connective)
  | negationInDistribution
  | connectiveInDistribution (connective : Connective)
  | quantifierInDistribution
  | negationInSkolemization
  | connectiveInSkolemization (connective : Connective)
  | missingClause (clause : Nat)
  | unindexedPredicate (predicate clause : Nat)
  | unlistedClause (clause predicate : Nat)
  | answerLength (given expected : Nat)
  | missingBindings
  deriving DecidableEq, Repr

/-- How the number of a clause is written in a message. -/
def clauseNumber (clause : Nat) : String :=
  "ClauseId(" ++ toString clause ++ ")"

/-- How the number of a predicate is written in a message. -/
def predicateNumber (predicate : Nat) : String :=
  "PredicateIdentifier(" ++ toString predicate ++ ")"

/-- The wording of a broken condition. -/
def InvariantError.message : InvariantError → String
  | connectiveInNegationNormalForm connective =>
      "connective " ++ connective.symbol ++ " survived until negation normal form"
  | negationInDistribution => "negation above a non atomic formula during distribution"
  | connectiveInDistribution connective =>
      "connective " ++ connective.symbol ++ " reached distribution"
  | quantifierInDistribution => "quantifier reached distribution"
  | negationInSkolemization => "Skolemization expects negation normal form"
  | connectiveInSkolemization connective =>
      "connective " ++ connective.symbol ++ " reached Skolemization"
  | missingClause clause => "clause " ++ clauseNumber clause ++ " is not in the store"
  | unindexedPredicate predicate clause =>
      "predicate " ++ predicateNumber predicate ++ " of clause " ++ clauseNumber clause ++
        " not indexed"
  | unlistedClause clause predicate =>
      "clause " ++ clauseNumber clause ++ " appears in neither list of predicate " ++
        predicateNumber predicate
  | answerLength given expected =>
      "answer tuple of length " ++ toString given ++ " for " ++ toString expected ++
        " query variables"
  | missingBindings => "bindings query produced no binding set"

/-- The faults of a DIMACS problem or of the solver. -/
inductive OracleError where
  | malformedProblemLine (line : String)
  | invalidVariableCount (numeral : String)
  | invalidClauseCount (numeral : String)
  | clauseBeforeProblemLine
  | invalidLiteral (numeral : String)
  | literalOutOfRange (value : Int)
  | undeclaredVariable (variableNumber declared : Nat)
  | missingProblemLine
  | unterminatedClause
  | clauseCount (expected found : Nat)
  | unavailable
  deriving DecidableEq, Repr

/-- The wording of an oracle error. -/
def OracleError.message : OracleError → String
  | malformedProblemLine line => "malformed problem line '" ++ line ++ "'"
  | invalidVariableCount numeral => "invalid variable count '" ++ numeral ++ "'"
  | invalidClauseCount numeral => "invalid clause count '" ++ numeral ++ "'"
  | clauseBeforeProblemLine => "clause before the problem line"
  | invalidLiteral numeral => "invalid literal '" ++ numeral ++ "'"
  | literalOutOfRange value => "literal " ++ toString value ++ " out of range"
  | undeclaredVariable variableNumber declared =>
      "variable " ++ toString variableNumber ++ " exceeds the declared " ++ toString declared
  | missingProblemLine => "missing problem line"
  | unterminatedClause => "last clause is not terminated by 0"
  | clauseCount expected found =>
      "expected " ++ toString expected ++ " clauses, found " ++ toString found
  | unavailable => "unavailable"

/-- The faults of a file. -/
inductive FileError where
  | notFound
  | notPermitted
  | isDirectory
  | nameTooLong
  | notText
  | unreadable (reason : String)
  deriving DecidableEq, Repr

/-- The wording of a file error. -/
def FileError.message : FileError → String
  | notFound => "No such file or directory (os error 2)"
  | notPermitted => "Permission denied (os error 13)"
  | isDirectory => "Is a directory (os error 21)"
  | nameTooLong => "File name too long (os error 36)"
  | notText => "stream did not contain valid UTF-8"
  | unreadable reason => reason

/-- A failure of the prover.  `outsideAssignment` is the one failure with no
recovery at all: a solver looked up a variable beyond the last one it keeps a
value for. -/
inductive Error where
  | parse (position : Nat) (cause : ParseError)
  | invariant (cause : InvariantError)
  | oracle (cause : OracleError)
  | file (cause : FileError)
  | outsideAssignment (variableNumber : Nat)
  deriving DecidableEq, Repr

namespace Error

/-- The text of a failure. -/
def message : Error → String
  | parse position cause =>
      "parse error at position " ++ toString position ++ ": " ++ cause.message
  | invariant cause => "internal invariant violated: " ++ cause.message
  | oracle cause => "satisfiability oracle failed: " ++ cause.message
  | file cause => cause.message
  | outsideAssignment variableNumber =>
      "variable " ++ toString variableNumber ++ " has no place in the assignment"

/-- Whether the failure leaves everything as it was, so that another text may
be tried. -/
def isRecoverable : Error → Bool
  | parse _ _ => true
  | _ => false

end Error

end Entailment
