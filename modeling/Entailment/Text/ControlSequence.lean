/-!
# Control sequences

A terminal does not show every character.  The escape character starts a
sequence that commands the terminal.  After `[` it is a control sequence, after
`P` a device control string, after `]` a system command, and after `X`, `^` or
`_` another string.  Any other sequence ends with its first character that is
not between the space and the slash.

A text is made plain by leaving out these sequences and all control characters,
except the tab, the line feed, the form feed and the carriage return.  One of
these four that stands in a short sequence or a control sequence interrupts it:
the text from there on is shown up to the next character that is not shown,
where the sequence goes on.
-/

namespace Entailment.Text

/-- The kinds of sequence that a character can stand in.  A device control
string has a head, in which parameters come before intermediate characters. -/
inductive Sequence where
  | none
  | escape
  | escapeIntermediate
  | control
  | device
  | deviceParameter
  | deviceIntermediate
  | string
  | command
  deriving DecidableEq, Repr

/-- Whether the code of a character lies between two bounds. -/
def isBetween (first last : Nat) (c : Char) : Bool :=
  decide (first ≤ c.toNat) && decide (c.toNat ≤ last)

/-- Whether a character is a control character that is shown: the tab, the line
feed, the form feed and the carriage return. -/
def isBlankControl (c : Char) : Bool :=
  c == '\t' || c == '\n' || c == '\x0c' || c == '\r'

/-- Whether a character ends a string.  The terminator is a byte, which also
counts within the UTF-8 encoding of a character. -/
def endsString (c : Char) : Bool :=
  (String.utf8EncodeChar c).contains 0x9C

namespace Sequence

/-- The sequence after the character that follows the escape character. -/
def start (c : Char) : Sequence :=
  if isBetween 0x20 0x2F c then .escapeIntermediate
  else if c == '[' then .control
  else if c == 'P' then .device
  else if c == ']' then .command
  else if c == 'X' || c == '^' || c == '_' then .string
  else if isBetween 0x30 0x7E c then .none
  else .escape

/-- The sequence after one more character.  Cancelling and substituting end any
sequence, and the escape character starts another one. -/
def next (sequence : Sequence) (c : Char) : Sequence :=
  if c == '\x18' || c == '\x1a' then .none
  else if c == '\x1b' then .escape
  else
    match sequence with
    | none => .none
    | escape => start c
    | escapeIntermediate => if isBetween 0x30 0x7E c then .none else .escapeIntermediate
    | control => if isBetween 0x40 0x7E c then .none else .control
    | device =>
        if isBetween 0x20 0x2F c then .deviceIntermediate
        else if isBetween 0x30 0x3F c then .deviceParameter
        else if isBetween 0x40 0x7E c then .string
        else .device
    | deviceParameter =>
        if isBetween 0x20 0x2F c then .deviceIntermediate
        else if isBetween 0x3C 0x7E c then .string
        else .deviceParameter
    | deviceIntermediate => if isBetween 0x30 0x7E c then .string else .deviceIntermediate
    | string => if endsString c then .none else .string
    | command => if c == '\x07' then .none else .command

/-- Whether a character is shown that stands in a sequence, or outside of
any. -/
def shows (sequence : Sequence) (c : Char) : Bool :=
  match sequence with
  | none => isBlankControl c || (decide (0x20 ≤ c.toNat) && c != '\x7f')
  | escape => isBlankControl c
  | escapeIntermediate => isBlankControl c
  | control => isBlankControl c
  | _ => false

end Sequence

/-- The characters of a text that are shown.  The text goes on in `sequence`,
which is interrupted if `showing` holds.  A character beyond ASCII ends a
sequence that is interrupted. -/
def shown (sequence : Sequence) (showing : Bool) : List Char → List Char
  | [] => []
  | c :: rest =>
      if (if showing then Sequence.none else sequence).shows c then
        c :: shown (if c.toNat < 0x80 then sequence else .none) true rest
      else shown (sequence.next c) false rest

/-- A text without its control sequences and control characters. -/
def plain (text : String) : String :=
  String.ofList (shown .none false text.toList)

end Entailment.Text
