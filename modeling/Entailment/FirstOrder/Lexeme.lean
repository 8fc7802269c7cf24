import Entailment.Error
import Entailment.Text.Blank

/-!
# Tokens of written formulas

A written formula is a row of tokens with blanks between them where they are
wanted.  Names are runs of letters, digits and underscores, and a variable is a
question mark with a name directly after it.  Two characters are read as one
token wherever they can be: `~=`, `=>`, `!A` and `!E`.

Positions count the bytes of the text in UTF-8.  Only ASCII characters belong to
tokens.
-/

namespace Entailment.FirstOrder

/-- A token of a written formula. -/
inductive Token where
  | openParen
  | closeParen
  | comma
  | negation
  | connective (connective : Connective)
  | equal
  | notEqual
  | quantifier (quantifier : Quantifier)
  | var (text : String)
  | word (text : String)
  deriving DecidableEq, Repr

/-- A token with the position where it starts. -/
structure Lexeme where
  position : Nat
  token : Token
  deriving DecidableEq, Repr

/-- Whether a character can be part of a name. -/
def isNameChar (c : Char) : Bool :=
  ('a' ≤ c && c ≤ 'z') || ('A' ≤ c && c ≤ 'Z') || ('0' ≤ c && c ≤ '9') || c == '_'

/-- The number of characters of a token. -/
def Token.width : Token → Nat
  | connective .implies => 2
  | connective .equiv => 3
  | notEqual => 2
  | quantifier _ => 2
  | var text => text.length + 1
  | word text => text.length
  | _ => 1

/-- Read the token that starts with a character which is not blank. -/
def Token.read (c : Char) (rest : List Char) : Except ParseError (Token × List Char) :=
  match c, rest with
  | '(', _ => .ok (.openParen, rest)
  | ')', _ => .ok (.closeParen, rest)
  | ',', _ => .ok (.comma, rest)
  | '^', _ => .ok (.connective .and, rest)
  | '|', _ => .ok (.connective .or, rest)
  | '~', '=' :: rest => .ok (.notEqual, rest)
  | '~', _ => .ok (.negation, rest)
  | '=', '>' :: rest => .ok (.connective .implies, rest)
  | '=', _ => .ok (.equal, rest)
  | '<', '=' :: '>' :: rest => .ok (.connective .equiv, rest)
  | '<', _ => .error .malformedEquivalence
  | '!', 'A' :: rest => .ok (.quantifier .universal, rest)
  | '!', 'E' :: rest => .ok (.quantifier .existential, rest)
  | '!', _ => .error (.unexpectedChar '!')
  | '?', _ =>
      match rest.takeWhile isNameChar with
      | [] => .error .expectedVariable
      | name => .ok (.var (String.ofList name), rest.dropWhile isNameChar)
  | c, _ =>
      if isNameChar c then
        .ok (.word (String.ofList (c :: rest.takeWhile isNameChar)), rest.dropWhile isNameChar)
      else .error (.unexpectedChar c)

/-- What is left after a token is no longer than what was there before. -/
theorem Token.length_read_le {c : Char} {rest left : List Char} {token : Token}
    (done : Token.read c rest = .ok (token, left)) : left.length ≤ rest.length := by
  have dropped : (rest.dropWhile isNameChar).length ≤ rest.length :=
    (List.dropWhile_sublist _).length_le
  unfold Token.read at done
  split at done <;> (try split at done) <;> cases done <;> (try simp only [List.length_cons]) <;>
    omega

/-- Read the tokens of a text that goes on at `position`. -/
def Lexeme.scan (position : Nat) (text : List Char) : Except Error (List Lexeme) :=
  match text with
  | [] => .ok []
  | c :: rest =>
      if Text.isBlank c then scan (position + c.utf8Size) rest
      else
        match done : Token.read c rest with
        | .error cause => .error (.parse position cause)
        | .ok (token, left) =>
            have := Token.length_read_le done
            match scan (position + token.width) left with
            | .error error => .error error
            | .ok lexemes => .ok (⟨position, token⟩ :: lexemes)
termination_by text.length
decreasing_by
  · exact Nat.lt_succ_self _
  · exact Nat.lt_succ_of_le this

end Entailment.FirstOrder
