/-!
# Decimal numerals

Numbers in DIMACS texts and on the command line are decimal numerals with an
optional sign.  Numbers of a bounded range refuse a numeral outside it.
-/

namespace Entailment.Text

/-- The value of a decimal digit. -/
def digitValue? (c : Char) : Option Nat :=
  if '0' ≤ c ∧ c ≤ '9' then some (c.toNat - '0'.toNat) else none

/-- Read the digits that continue a numeral of value `value`. -/
def digitsFrom? (value : Nat) : List Char → Option Nat
  | [] => some value
  | c :: rest =>
      match digitValue? c with
      | some digit => digitsFrom? (10 * value + digit) rest
      | none => none

/-- Read a numeral of one or more digits without a sign. -/
def digits? : List Char → Option Nat
  | [] => none
  | c :: rest => digitsFrom? 0 (c :: rest)

/-- Read a number between `0` and `largest`.  A plus sign may stand in front. -/
def natural? (largest : Nat) (text : List Char) : Option Nat :=
  let body :=
    match text with
    | '+' :: rest => rest
    | other => other
  match digits? body with
  | some value => if value ≤ largest then some value else none
  | none => none

/-- Read a number between `least` and `largest`.  A sign may stand in front. -/
def integer? (least largest : Int) (text : List Char) : Option Int :=
  let value? :=
    match text with
    | '+' :: rest => (digits? rest).map Int.ofNat
    | '-' :: rest => (digits? rest).map fun value => -Int.ofNat value
    | other => (digits? other).map Int.ofNat
  match value? with
  | some value => if least ≤ value ∧ value ≤ largest then some value else none
  | none => none

/-- The largest number of 32 bits. -/
def largest32 : Nat := 0xFFFFFFFF

/-- The largest number of 64 bits. -/
def largest64 : Nat := 0xFFFFFFFFFFFFFFFF

end Entailment.Text
