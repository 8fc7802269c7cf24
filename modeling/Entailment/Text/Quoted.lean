import Entailment.Text.Blank
import Entailment.Text.Category
import Entailment.Text.GraphemeExtend

/-!
# Quoted texts

A text is quoted by writing it between double quotes and escaping the
characters that would not be seen as themselves.  The double quote, the
backslash and the common control characters have escapes of their own.  Every
other character that is not seen for itself is escaped by its number: one that
is blank, other than the space, one that is not graphic, one that is shown only
together with the character before it, and a letter that is shown as nothing.
-/

namespace Entailment.Text

/-- The digits of a number in base sixteen. -/
def hexadecimal (n : Nat) : String :=
  String.ofList (Nat.toDigits 16 n)

/-- Whether a character is a Hangul filler.  These are the only letters that
Unicode lets a display ignore. -/
def isFiller (c : Char) : Bool :=
  c == '\u115F' || c == '\u1160' || c == '\u3164' || c == '\uFFA0'

/-- Whether a character is shown by its number. -/
def isInvisible (c : Char) : Bool :=
  (isBlank c && c != ' ') || isOther c || extendsGrapheme c || isFiller c

/-- The text of a character between quotes. -/
def quoteChar (c : Char) : String :=
  match c with
  | '"' => "\\\""
  | '\\' => "\\\\"
  | '\n' => "\\n"
  | '\r' => "\\r"
  | '\t' => "\\t"
  | '\x00' => "\\0"
  | c => if isInvisible c then "\\u\x7b" ++ hexadecimal c.toNat ++ "\x7d" else c.toString

/-- A text between quotes. -/
def quote (text : String) : String :=
  "\"" ++ String.join (text.toList.map quoteChar) ++ "\""

end Entailment.Text
