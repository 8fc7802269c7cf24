import Entailment.Answers
import Entailment.Dimacs.Problem
import Entailment.Formula.Clausal
import Entailment.Monitored
import Entailment.Propositional.Vocabulary
import Entailment.Sat.Search
import Entailment.Statistics

/-!
# The propositional knowledge base

A propositional knowledge base is a set of clauses over numbered names.  A
query is entailed when the clauses together with those of its negation cannot
be satisfied.  That question is written down as a DIMACS problem and handed to
an oracle, which answers from the text alone.

Names that only a query uses get numbers in a copy of the vocabulary, so asking
leaves the knowledge base as it is.
-/

namespace Entailment.Propositional

/-- Something that decides the DIMACS problem of a text. -/
abbrev Oracle := String → Except Error Sat.Verdict

/-- The oracle that searches for a satisfying assignment. -/
def Oracle.search : Oracle := fun text =>
  (Sat.decideText text).map Prod.fst

/-- Clauses over numbered names, and the statistics of the last query. -/
structure KnowledgeBase where
  vocabulary : Vocabulary
  clauses : ClauseSet Nat
  statistics : Statistics
  deriving DecidableEq

/-- A DIMACS problem with the names of its variables. -/
structure NamedProblem where
  problem : Dimacs.Problem
  names : List (Nat × String)
  deriving DecidableEq

/-- The text of a problem with names. -/
def NamedProblem.render (named : NamedProblem) : String :=
  named.problem.render named.names

namespace KnowledgeBase

/-- The knowledge base that knows nothing. -/
def empty : KnowledgeBase := ⟨.empty, [], .start⟩

/-- Add a formula. -/
def tell (text : String) (kb : KnowledgeBase) : Except Error KnowledgeBase := do
  let formula ← Proposition.parse text
  let (numbered, vocabulary) := kb.vocabulary.internFormula formula
  let clauses ← numbered.clauses false
  return { kb with vocabulary := vocabulary, clauses := Sorted.union kb.clauses clauses }

/-- The problem that is unsatisfiable exactly when the query is entailed. -/
def dimacs (query : String) (kb : KnowledgeBase) : Except Error NamedProblem := do
  let formula ← Proposition.parse query
  let (numbered, vocabulary) := kb.vocabulary.internFormula formula
  let negated ← numbered.clauses true
  return ⟨⟨vocabulary.size, Sorted.union negated kb.clauses⟩, vocabulary.toList⟩

/-- Whether a query is entailed. -/
def ask {ε : Type} (oracle : Oracle) (query : String) (kb : KnowledgeBase) :
    Monitored ε (Except Error (Bool × KnowledgeBase)) := do
  let start ← Monitored.clock
  match kb.dimacs query with
  | .error error => return .error error
  | .ok named =>
      match oracle named.render with
      | .error error => return .error error
      | .ok verdict =>
          let time := start.since (← Monitored.clock)
          let statistics :=
            { Statistics.start with
              time := time, clausesGenerated := named.problem.clauses.length }
          return .ok (verdict = .unsatisfiable, { kb with statistics := statistics })

/-- The answers to a query, which has no variables: one empty tuple when it is
entailed and none otherwise. -/
def askBindings {ε : Type} (oracle : Oracle) (query : String) (kb : KnowledgeBase) :
    Monitored ε (Except Error (Answers × KnowledgeBase)) := do
  match ← kb.ask oracle query with
  | .error error => return .error error
  | .ok (entailed, kb) =>
      let answers := Answers.start []
      if entailed then return (answers.add []).map fun (_, answers) => (answers, kb)
      else return .ok (answers, kb)

end KnowledgeBase

end Entailment.Propositional
