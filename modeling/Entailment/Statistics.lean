import Entailment.Duration

/-!
# How a query ended

A search ends with a refutation, with nothing left to try, or because it gave
up at a limit.  The statistics of a query say how it ended and how much work it
took.
-/

namespace Entailment

/-- Why a search gave up. -/
inductive GiveUp where
  | timeout
  | outOfMemory
  deriving DecidableEq, Repr

/-- The name of a reason. -/
def GiveUp.name : GiveUp → String
  | timeout => "Timeout"
  | outOfMemory => "OutOfMemory"

/-- How a search ended.  A search that is exhausted has eliminated every
predicate it was given without a refutation. -/
inductive Status where
  | refuted
  | exhausted
  | unknown (reason : GiveUp)
  deriving DecidableEq, Repr

/-- The work done for a query. -/
structure Statistics where
  time : Duration
  clausesGenerated : Nat
  proofLength : Option Nat
  status : Option Status
  truncated : Bool
  deriving DecidableEq, Repr

namespace Statistics

/-- The statistics before any query. -/
def start : Statistics := ⟨.zero, 0, none, none, false⟩

/-- The text of some statistics, such as `0.001s, 12 clauses generated`. -/
def render (statistics : Statistics) : String :=
  let proofLength :=
    match statistics.proofLength with
    | some length => ", proof length " ++ toString length
    | none => ""
  let reason :=
    match statistics.status with
    | some (.unknown reason) => ", gave up: " ++ reason.name
    | _ => ""
  let truncated := if statistics.truncated then ", truncated" else ""
  statistics.time.render ++ ", " ++ toString statistics.clausesGenerated ++
    " clauses generated" ++ proofLength ++ reason ++ truncated

end Statistics

end Entailment
