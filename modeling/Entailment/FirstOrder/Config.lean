import Entailment.FirstOrder.Term
import Entailment.Monitored
import Entailment.Statistics

/-!
# Settings of a search

A search is bounded by the number of resolvents it may make for one predicate,
and it may be bounded in time and memory.  A bound on the time is a whole number of
seconds, as it is given on the command line.  Other settings choose which answers
are reported, whether proofs are recorded, and whether the first refutation
ends the search.
-/

namespace Entailment.FirstOrder

/-- Which tuples of terms are reported as answers. -/
inductive AnswerFilter where
  | any
  | ground
  | constantsOnly
  deriving DecidableEq, Repr

namespace AnswerFilter

/-- The name of a filter. -/
def name : AnswerFilter → String
  | any => "Any"
  | ground => "Ground"
  | constantsOnly => "ConstantsOnly"

/-- Whether a tuple of terms is reported. -/
def accepts (filter : AnswerFilter) (tuple : List Term) : Bool :=
  match filter with
  | any => true
  | ground => tuple.all Term.isGround
  | constantsOnly => tuple.all Term.isConstant

end AnswerFilter

/-- Limits of a search: a number of seconds and a number of bytes. -/
structure Limits where
  seconds : Option Nat
  bytes : Option Nat
  deriving DecidableEq, Repr

namespace Limits

/-- No limits. -/
def unlimited : Limits := ⟨none, none⟩

/-- Whether the time of a search that began at `start` is over. -/
def isOutOfTime {ε : Type} (limits : Limits) (start : Duration) : Monitored ε Bool :=
  match limits.seconds with
  | none => pure false
  | some seconds => do
      let now ← Monitored.clock
      return Duration.hasPassed seconds start now

/-- Whether more memory is in use than allowed. -/
def isOutOfMemory {ε : Type} (limits : Limits) : Monitored ε Bool :=
  match limits.bytes with
  | none => pure false
  | some limit => do
      match ← Monitored.memory with
      | some bytes => return decide (limit < bytes)
      | none => return false

/-- Why a search that began at `start` has to give up, if it has to.  Time is
looked at before memory. -/
def check {ε : Type} (limits : Limits) (start : Duration) : Monitored ε (Option GiveUp) := do
  if ← limits.isOutOfTime start then return some .timeout
  else if ← limits.isOutOfMemory then return some .outOfMemory
  else return none

end Limits

/-- The settings of a search.  `maxResolutions` bounds the resolvents made while
one predicate is eliminated. -/
structure Config where
  maxResolutions : Nat
  answerFilter : AnswerFilter
  trackProofs : Bool
  limits : Limits
  deriving DecidableEq, Repr

/-- The settings in use unless others are chosen. -/
def Config.default : Config := ⟨100, .ground, false, .unlimited⟩

/-- Whether a search ends with the first refutation or goes on to find all. -/
inductive ProofMode where
  | single
  | all
  deriving DecidableEq, Repr

end Entailment.FirstOrder
