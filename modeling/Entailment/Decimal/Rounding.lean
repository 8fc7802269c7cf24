/-!
# Rounding quotients

A quotient of natural numbers is rounded to the nearest integer, and a quotient
half way between two integers to the even one.  Rounding to a number of
significant binary digits is rounding to an integer after scaling by a power of
two; with 53 digits it is the rounding of double precision arithmetic.
-/

namespace Entailment.Decimal

/-- The integer nearest to `numerator / denominator`, the even one of two. -/
def roundQuotient (numerator denominator : Nat) : Nat :=
  let quotient := numerator / denominator
  let twice := 2 * (numerator % denominator)
  if twice < denominator then quotient
  else if denominator < twice then quotient + 1
  else if quotient % 2 = 0 then quotient
  else quotient + 1

/-- A non-negative rational number, written as a quotient. -/
structure Quotient where
  numerator : Nat
  denominator : Nat
  deriving DecidableEq, Repr

namespace Quotient

/-- Multiply a quotient by a power of two. -/
def scale (exponent : Int) (x : Quotient) : Quotient :=
  match exponent with
  | .ofNat n => ⟨x.numerator <<< n, x.denominator⟩
  | .negSucc n => ⟨x.numerator, x.denominator <<< (n + 1)⟩

/-- The sum of two quotients. -/
def add (x y : Quotient) : Quotient :=
  ⟨x.numerator * y.denominator + y.numerator * x.denominator, x.denominator * y.denominator⟩

/-- The exponent that scales a positive quotient to an integer part of exactly
`digits` binary digits. -/
def exponentFor (digits : Nat) (x : Quotient) : Int :=
  let guess : Int := digits - 1 - (x.numerator.log2 - x.denominator.log2)
  let scaled := x.scale guess
  if scaled.numerator / scaled.denominator < 1 <<< (digits - 1) then guess + 1 else guess

/-- Round a quotient to a number of significant binary digits. -/
def roundBinary (digits : Nat) (x : Quotient) : Quotient :=
  if x.numerator = 0 then ⟨0, 1⟩
  else
    let exponent := x.exponentFor digits
    let scaled := x.scale exponent
    (Quotient.mk (roundQuotient scaled.numerator scaled.denominator) 1).scale (-exponent)

/-- The decimal text of a quotient with three places after the point. -/
def thousandths (x : Quotient) : String :=
  let rounded := roundQuotient (x.numerator * 1000) x.denominator
  let places := toString (rounded % 1000)
  toString (rounded / 1000) ++ "." ++ String.ofList (List.replicate (3 - places.length) '0') ++
    places

end Quotient

end Entailment.Decimal
