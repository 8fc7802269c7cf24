import Entailment.Decimal.Rounding

/-!
# Durations

A duration is a number of seconds and nanoseconds.  It is shown in seconds with
three places.  The seconds are computed in double precision arithmetic first,
and the text is the rounding of that exact binary value.
-/

namespace Entailment

/-- A span of time. -/
structure Duration where
  seconds : Nat
  nanoseconds : Nat
  deriving DecidableEq, Repr

namespace Duration

/-- No time at all. -/
def zero : Duration := ⟨0, 0⟩

/-- The number of nanoseconds in a second. -/
def nanosecondsPerSecond : Nat := 1000000000

/-- A span of time of whole seconds and any number of nanoseconds. -/
def ofParts (seconds nanoseconds : Nat) : Duration :=
  ⟨seconds + nanoseconds / nanosecondsPerSecond, nanoseconds % nanosecondsPerSecond⟩

/-- A span of time in nanoseconds. -/
def toNanoseconds (duration : Duration) : Nat :=
  duration.seconds * nanosecondsPerSecond + duration.nanoseconds

/-- The time between two readings of a clock. -/
def since (start now : Duration) : Duration :=
  ofParts 0 (now.toNanoseconds - start.toNanoseconds)

/-- Whether a number of seconds has gone by between two readings of a clock. -/
def hasPassed (seconds : Nat) (start now : Duration) : Bool :=
  decide (start.toNanoseconds + seconds * nanosecondsPerSecond ≤ now.toNanoseconds)

/-- The seconds of a duration in double precision. -/
def toSeconds (duration : Duration) : Decimal.Quotient :=
  let whole := (Decimal.Quotient.mk duration.seconds 1).roundBinary 53
  let part := (Decimal.Quotient.mk duration.nanoseconds nanosecondsPerSecond).roundBinary 53
  (whole.add part).roundBinary 53

/-- The text of a duration, such as `0.250s`. -/
def render (duration : Duration) : String :=
  duration.toSeconds.thousandths ++ "s"

end Duration

end Entailment
