/-!
# Blank characters, lines and words

Both formula languages and the DIMACS format skip blanks, cut texts into lines
and cut lines into words.  A character is blank when it has the Unicode
property `White_Space`, so the class is wider than the blanks of ASCII and
holds for instance the no-break space.

All functions work on lists of characters.  They are structurally recursive and
evaluate on concrete texts.
-/

namespace Entailment.Text

/-- Whether a character has the Unicode property `White_Space`. -/
def isBlank (c : Char) : Bool :=
  let code := c.toNat
  (9 ≤ code && code ≤ 13) || code == 0x20 || code == 0x85 || code == 0xA0 ||
    code == 0x1680 || (0x2000 ≤ code && code ≤ 0x200A) || code == 0x2028 ||
    code == 0x2029 || code == 0x202F || code == 0x205F || code == 0x3000

/-- Drop the blanks at the end of a text. -/
def trimEnd : List Char → List Char
  | [] => []
  | c :: rest =>
      match trimEnd rest with
      | [] => if isBlank c then [] else [c]
      | kept => c :: kept

/-- Drop the blanks at both ends of a text. -/
def trim (text : List Char) : List Char :=
  trimEnd (text.dropWhile isBlank)

/-- The lines of a text: the pieces between its line feeds.  A text of `n` line
feeds has `n + 1` lines, the last of which may be empty.  A carriage return
before a line feed stays in the line, where it counts as a blank. -/
def lines : List Char → List (List Char)
  | [] => [[]]
  | c :: rest =>
      if c = '\n' then [] :: lines rest
      else
        match lines rest with
        | [] => [[c]]
        | line :: others => (c :: line) :: others

/-- Cut a text into words, the first of which has already been read up to
`word`, last character first. -/
def wordsFrom (word : List Char) : List Char → List (List Char)
  | [] => if word.isEmpty then [] else [word.reverse]
  | c :: rest =>
      if isBlank c then
        if word.isEmpty then wordsFrom [] rest
        else word.reverse :: wordsFrom [] rest
      else wordsFrom (c :: word) rest

/-- The maximal runs of characters that are not blank. -/
def words (text : List Char) : List (List Char) :=
  wordsFrom [] text

end Entailment.Text
