import Entailment.FirstOrder.Config
import Entailment.FirstOrder.Printer
import Entailment.Statistics

/-!
# What a knowledge base reports

A first-order knowledge base reports every step of its work as an event.  An
event has a severity, and a message over the signature in use.
-/

namespace Entailment.FirstOrder

/-- How much an event matters, the most severe ones first. -/
inductive Severity where
  | warn
  | info
  | debug
  deriving DecidableEq, Repr

namespace Severity

/-- The name of a severity. -/
def name : Severity → String
  | warn => "WARN"
  | info => "INFO"
  | debug => "DEBUG"

/-- The place of a severity, zero for the most severe one. -/
def rank : Severity → Nat
  | warn => 0
  | info => 1
  | debug => 2

/-- Whether events of a severity are shown when everything down to `threshold`
is. -/
def isShownAt (threshold severity : Severity) : Bool :=
  decide (severity.rank ≤ threshold.rank)

end Severity

/-- The steps of telling and asking. -/
inductive Event where
  | told (text : String) (clauses added : Nat)
  | skolemized (v : Variable) (f : FunctionSymbol)
  | negatedQuery (c : Clause)
  | planned (predicates width : Nat)
  | alreadyRefuted
  | eliminating (p : PredicateSymbol) (positive negative : Nat)
  | unified (left right : Atom) (success : Bool)
  | rejectedAnswer (filter : AnswerFilter)
  | answer (tuple : List String)
  | resolved (left right resolvent : Clause)
  | derivedEmpty (p : PredicateSymbol)
  | discardedTautology
  | droppedDisjunctiveAnswer
  | stopped (p : PredicateSymbol) (resolutions : Nat)
  | eliminated (p : PredicateSymbol) (resolutions kept : Nat)
  | gaveUp (reason : GiveUp)
  | asked (text : String) (proven : Bool) (statistics : Statistics)
  | askedBindings (text : String) (answers : Nat) (statistics : Statistics)
  deriving DecidableEq

namespace Event

/-- The severity of an event. -/
def severity : Event → Severity
  | gaveUp _ => .warn
  | skolemized _ _ | negatedQuery _ | unified _ _ _ | rejectedAnswer _ | resolved _ _ _
  | discardedTautology | droppedDisjunctiveAnswer => .debug
  | _ => .info

/-- The message of an event. -/
def message (signature : Signature) : Event → String
  | told text clauses added =>
      "Told " ++ text ++ ": " ++ toString clauses ++ " clause(s), " ++ toString added ++ " new"
  | skolemized v f =>
      "Skolemizing " ++ signature.variableName v ++ " with " ++ (signature.functionInfo f).name
  | negatedQuery c => "Negated query clause " ++ signature.renderClause c
  | planned predicates width =>
      "Computed elimination order over " ++ toString predicates ++ " predicates, width " ++
        toString width
  | alreadyRefuted => "Clause set already contains the empty clause"
  | eliminating p positive negative =>
      "Eliminating " ++ signature.predicateName p ++ ": " ++ toString positive ++
        " positive, " ++ toString negative ++ " negative clauses"
  | unified left right success =>
      "Unifying " ++ signature.renderAtom left ++ " with " ++ signature.renderAtom right ++ ": " ++
        (if success then "success" else "failure")
  | rejectedAnswer filter => "Answer tuple rejected by filter " ++ filter.name
  | answer tuple => "Answer: (" ++ String.intercalate ", " tuple ++ ")"
  | resolved left right resolvent =>
      "Resolved " ++ signature.renderClause left ++ " and " ++ signature.renderClause right ++
        " into " ++ signature.renderClause resolvent
  | derivedEmpty p =>
      "Derived the empty clause while eliminating " ++ signature.predicateName p
  | discardedTautology => "Discarding tautology"
  | droppedDisjunctiveAnswer => "Dropping disjunctive answer"
  | stopped p resolutions =>
      "Eliminating " ++ signature.predicateName p ++ " stopped after " ++ toString resolutions ++
        " resolutions"
  | eliminated p resolutions kept =>
      "Eliminated " ++ signature.predicateName p ++ ": " ++ toString resolutions ++
        " resolutions, " ++ toString kept ++ " resolvents kept"
  | gaveUp reason => "Query gave up: " ++ reason.name
  | asked text proven statistics =>
      "Asked " ++ text ++ ": " ++ toString proven ++ " (" ++ statistics.render ++ ")"
  | askedBindings text answers statistics =>
      "Asked for bindings of " ++ text ++ ": " ++ toString answers ++ " answer(s) (" ++
        statistics.render ++ ")"

end Event

end Entailment.FirstOrder
