import Entailment.FirstOrder.Elimination
import Entailment.FirstOrder.EliminationOrder

/-!
# Refuting a store

The predicates of an order are eliminated one after the other.  The bucket of a
predicate is taken out of the store, and the resolvents that are kept go into
the store in its place.  The store is refuted when the empty clause is in it
from the start or is derived on the way.
-/

namespace Entailment.FirstOrder

/-- The state of a search: its clauses, and what it has found out. -/
structure Search where
  store : Store
  findings : Findings

/-- How a search ended. -/
structure Refutation where
  status : Status
  generated : Nat
  truncated : Bool
  proof : ProofIndex
  answers : Option Answers
  deriving DecidableEq

namespace Search

/-- The search before the first elimination. -/
def start (setup : Setup) (store : Store) (query : Option AnswerQuery) (signature : Signature) :
    Search :=
  ⟨store, ⟨signature, .start setup.config.trackProofs, query, 0, false, false⟩⟩

/-- The search after an elimination, where `rest` are the clauses without the
predicate that was eliminated. -/
def after (rest : Store) (elimination : Elimination) : Search :=
  ⟨rest.insertAll elimination.kept, elimination.findings⟩

/-- Eliminate one predicate. -/
def eliminate (setup : Setup) (p : PredicateSymbol) (search : Search) :
    Monitored Event (Outcome Search) := do
  match ← setup.config.limits.check setup.start with
  | some reason => return .halted (.gaveUp reason) search
  | none =>
      match search.store.takeBucket p with
      | .error error => return .halted (.failed error) search
      | .ok (bucket, rest) =>
          if bucket.isEmpty then return .going { search with store := rest }
          else
            match ← Elimination.run setup p bucket search.findings with
            | .going elimination => return .going (after rest elimination)
            | .halted .capped elimination => return .going (after rest elimination)
            | .halted halt elimination => return .halted halt (after rest elimination)

/-- Eliminate the predicates of an order. -/
def run (setup : Setup) (order : EliminationOrder) (search : Search) :
    Monitored Event (Outcome Search) := do
  if search.store.containsEmpty then
    Monitored.tell .alreadyRefuted
    let search := { search with findings := { search.findings with refuted := true } }
    if setup.mode = .single then return .halted .refuted search
    else forEach (eliminate setup) order.order search
  else forEach (eliminate setup) order.order search

/-- The result of a search that ended with a status. -/
def finish (status : Status) (search : Search) : Refutation :=
  { status := status
    generated := search.findings.generated
    truncated := search.findings.truncated
    proof := search.findings.proof
    answers := search.findings.answers.map AnswerQuery.answers }

/-- The result of a search. -/
def result : Outcome Search → Except Error Refutation
  | .going search =>
      .ok (search.finish (if search.findings.refuted then .refuted else .exhausted))
  | .halted (.gaveUp reason) search => .ok (search.finish (.unknown reason))
  | .halted (.failed error) _ => .error error
  | .halted _ search => .ok (search.finish .refuted)

end Search

/-- Try to refute a store by eliminating the predicates of an order.  Predicates
that are not in the order are left alone. -/
def Store.refute (setup : Setup) (order : EliminationOrder) (query : Option AnswerQuery)
    (store : Store) (signature : Signature) :
    Monitored Event (Except Error Refutation × Signature) := do
  let outcome ← (Search.start setup store query signature).run setup order
  return (Search.result outcome, outcome.state.findings.signature)

end Entailment.FirstOrder
