import Entailment.FirstOrder.Clausify
import Entailment.FirstOrder.Parser
import Entailment.FirstOrder.Refutation

/-!
# The first-order knowledge base

A knowledge base holds the clauses of the formulas it was told.  A query works
on a copy of them, so asking leaves them as they are.

* `ask` closes the query with universal quantifiers, negates it, and tries to
  refute the clauses together with those of the negated query.
* `askBindings` adds the clauses of `query => answer(vars)` and `~answer(vars)`
  for a predicate `answer` that no formula can mention.  Each time the empty
  clause is derived by resolving on that predicate, its arguments are an
  answer.

The time of a query counts from its beginning, and the limit on the time of its
search from the moment at which the search begins.

An operation that fails gives no new knowledge base.
-/

namespace Entailment.FirstOrder

/-- The clauses of what was told, with everything that is carried from one query
to the next. -/
structure KnowledgeBase where
  signature : Signature
  store : Store
  planner : Planner
  config : Config
  statistics : Statistics
  lastProof : ProofIndex

namespace KnowledgeBase

/-- The name of the predicate that collects answers.  A name with `#` is never
read from a text. -/
def answerName : String := "answer#"

/-- The knowledge base that knows nothing. -/
def empty (config : Config) : KnowledgeBase :=
  ⟨.empty, .empty, .start, config, .start, .start false⟩

/-- Change the settings. -/
def configure (config : Config) (kb : KnowledgeBase) : KnowledgeBase :=
  { kb with config := config }

/-- The events that report the Skolem functions of a formula. -/
def witnessEvents (witnesses : List (Variable × FunctionSymbol)) : List Event :=
  witnesses.map fun (v, f) => .skolemized v f

/-- Add a formula. -/
def tell (text : String) (kb : KnowledgeBase) :
    Monitored Event (Except Error KnowledgeBase) := do
  match SurfaceFormula.parse text with
  | .error error => return .error error
  | .ok formula =>
      let (lowered, signature) := formula.lower kb.signature
      let clausified := lowered.clausify signature
      Monitored.tellAll (witnessEvents clausified.witnesses)
      match clausified.clauses with
      | .error error => return .error error
      | .ok clauses =>
          let store := kb.store.insertAll clauses
          Monitored.tell (.told text clauses.length (store.size - kb.store.size))
          return .ok { kb with signature := clausified.signature, store := store }

/-- Keep what a refutation says about its query. -/
def record (start : Duration) (refutation : Refutation) (kb : KnowledgeBase) :
    Monitored Event KnowledgeBase := do
  match refutation.status with
  | .unknown reason => Monitored.tell (.gaveUp reason)
  | _ => pure ()
  let now ← Monitored.clock
  let statistics : Statistics :=
    { time := start.since now
      clausesGenerated := refutation.generated
      proofLength := refutation.proof.length?
      status := some refutation.status
      truncated := refutation.truncated }
  return { kb with statistics := statistics, lastProof := refutation.proof }

/-- Try to refute a store, in the order that the planner of the knowledge base
gives, for a query that began at `start`. -/
def refute (start : Duration) (mode : ProofMode) (query : Option AnswerQuery) (store : Store)
    (signature : Signature) (kb : KnowledgeBase) :
    Monitored Event (Except Error (Refutation × KnowledgeBase)) := do
  let (order, computed, planner) := kb.planner.orderFor store (query.map AnswerQuery.predicate)
  Monitored.tellAll (if computed then [.planned order.order.length order.width] else [])
  let begun ← Monitored.clock
  let (outcome, signature) ← store.refute ⟨kb.config, mode, begun⟩ order query signature
  match outcome with
  | .error error => return .error error
  | .ok refutation =>
      let kb ← record start refutation { kb with signature := signature, planner := planner }
      return .ok (refutation, kb)

/-- Whether a query can be proven.  A query that cannot be proven need not be
false. -/
def ask (text : String) (kb : KnowledgeBase) :
    Monitored Event (Except Error (Bool × KnowledgeBase)) := do
  let start ← Monitored.clock
  match SurfaceFormula.parse text with
  | .error error => return .error error
  | .ok formula =>
      let (lowered, signature) := formula.lower kb.signature
      let negated := clausesOf true [] lowered.close signature
      Monitored.tellAll (witnessEvents negated.witnesses)
      match negated.clauses with
      | .error error => return .error error
      | .ok clauses =>
          Monitored.tellAll (clauses.map .negatedQuery)
          match ← kb.refute start .single none (kb.store.insertAll clauses)
              negated.signature with
          | .error error => return .error error
          | .ok (refutation, kb) =>
              let proven := decide (refutation.status = .refuted)
              Monitored.tell (.asked text proven kb.statistics)
              return .ok (proven, kb)

/-- The clauses that turn a query into the search for its answers. -/
def answerClauses (answer : PredicateSymbol) (lowered : Lowered) (signature : Signature) :
    Clausification :=
  let atom := Formula.atom ⟨answer, lowered.freeVariables.map .var⟩
  let rule :=
    clausesOf false lowered.freeVariables (.binary .implies lowered.formula atom) signature
  let goal := clausesOf true lowered.freeVariables atom rule.signature
  { clauses := do return (← rule.clauses) ++ (← goal.clauses)
    signature := goal.signature
    witnesses := rule.witnesses ++ goal.witnesses }

/-- The values of the free variables for which a query could be proven. -/
def askBindings (text : String) (kb : KnowledgeBase) :
    Monitored Event (Except Error (Answers × KnowledgeBase)) := do
  let start ← Monitored.clock
  match SurfaceFormula.parse text with
  | .error error => return .error error
  | .ok formula =>
      let (lowered, signature) := formula.lower kb.signature
      let (answer, signature) := signature.internPredicate answerName lowered.free.length
      let clausified := answerClauses answer lowered signature
      Monitored.tellAll (witnessEvents clausified.witnesses)
      match clausified.clauses with
      | .error error => return .error error
      | .ok clauses =>
          let query : AnswerQuery := ⟨answer, .start (lowered.free.map Prod.fst)⟩
          match ← kb.refute start .all (some query) (kb.store.insertAll clauses)
              clausified.signature with
          | .error error => return .error error
          | .ok (refutation, kb) =>
              match refutation.answers with
              | none => return .error (.invariant .missingBindings)
              | some answers =>
                  Monitored.tell (.askedBindings text answers.size kb.statistics)
                  return .ok (answers, kb)

end KnowledgeBase

end Entailment.FirstOrder
