import Entailment.Answers
import Entailment.FirstOrder.Event
import Entailment.FirstOrder.ProofIndex
import Entailment.FirstOrder.Resolvent
import Entailment.FirstOrder.Store

/-!
# Eliminating a predicate

A predicate is eliminated from its bucket, the clauses with a literal on it, by
resolving every clause with a positive literal against every clause with a
negative one.  A resolvent without the predicate is kept.  A resolvent that
still has the predicate joins the bucket and is tried in the next round, where
only pairs with at least one new clause are new.  The rounds end when one of
them brings no new clause, or at the cap on resolvents.

* A clause is never resolved with itself.
* Tautologies are dropped.
* Where the predicate collects answers, a resolvent that still has the predicate
  is a disjunction of answers.  It proves none of them and is dropped.
* The limits are looked at before every sixty-fourth pair.
-/

namespace Entailment.FirstOrder

/-- The predicate that collects the answers to a query, and the answers found so
far. -/
structure AnswerQuery where
  predicate : PredicateSymbol
  answers : Answers
  deriving DecidableEq, Repr

/-- What stays the same during a search. -/
structure Setup where
  config : Config
  mode : ProofMode
  start : Duration
  deriving DecidableEq, Repr

/-- What a search has found out, apart from its clauses. -/
structure Findings where
  signature : Signature
  proof : ProofIndex
  answers : Option AnswerQuery
  generated : Nat
  truncated : Bool
  refuted : Bool
  deriving DecidableEq

/-- Whether a predicate collects answers. -/
def Findings.collects (p : PredicateSymbol) (findings : Findings) : Bool :=
  findings.answers.any fun query => decide (query.predicate = p)

/-- Why a search stops before it has gone through everything.  A search that is
capped stops eliminating one predicate only. -/
inductive Halt where
  | refuted
  | capped
  | gaveUp (reason : GiveUp)
  | failed (error : Error)
  deriving DecidableEq, Repr

/-- How far a part of a search came. -/
inductive Outcome (σ : Type) where
  | going (state : σ)
  | halted (halt : Halt) (state : σ)
  deriving DecidableEq

/-- The state that a part of a search ends in. -/
def Outcome.state {σ : Type} : Outcome σ → σ
  | going state => state
  | halted _ state => state

/-- Go through some items until one of them halts the search. -/
def forEach {α σ : Type} (body : α → σ → Monitored Event (Outcome σ)) :
    List α → σ → Monitored Event (Outcome σ)
  | [], state => .done (.going state)
  | item :: rest, state => do
      match ← body item state with
      | .going state => forEach body rest state
      | .halted halt state => return .halted halt state

/-! ## Answers -/

/-- Report a tuple of terms as an answer, if the filter lets it through. -/
def Findings.takeAnswer (filter : AnswerFilter) (query : AnswerQuery) (tuple : List Term)
    (findings : Findings) : Monitored Event (Outcome Findings) := do
  if filter.accepts tuple then
    let printed := tuple.map findings.signature.renderTerm
    match query.answers.add printed with
    | .error error => return .halted (.failed error) findings
    | .ok (isNew, answers) =>
        Monitored.tellAll (if isNew then [.answer printed] else [])
        return .going { findings with answers := some { query with answers := answers } }
  else
    Monitored.tell (.rejectedAnswer filter)
    return .going findings

/-- Report an attempt to resolve on a predicate, and the answer it gives: where
the predicate collects answers, the empty clause stands for an answer. -/
def Findings.takeAttempt (filter : AnswerFilter) (p : PredicateSymbol) (attempt : Attempt)
    (findings : Findings) : Monitored Event (Outcome Findings) := do
  Monitored.tell (.unified attempt.positive attempt.negative attempt.unifier.isSome)
  match findings.answers, attempt.tuple? with
  | some query, some tuple =>
      if query.predicate = p ∧ attempt.isRefutation then findings.takeAnswer filter query tuple
      else return .going findings
  | _, _ => return .going findings

/-! ## Resolvents -/

/-- The state of the elimination of a predicate.  The clauses of `settled` have
been tried against each other, those of `fresh` are tried in this round, and
those of `added` in the next one.  `kept` are the resolvents without the
predicate, and `tried` the pairs that have been tried. -/
structure Elimination where
  findings : Findings
  settled : Bucket
  fresh : Bucket
  added : Bucket
  kept : List Clause
  tried : Array (Clause × Clause)
  resolutions : Nat
  deriving DecidableEq

/-- What becomes of a resolvent. -/
inductive Fate where
  | refutation
  | tautology
  | disjunctiveAnswer
  | returned
  | kept
  deriving DecidableEq, Repr

/-- The events that report what becomes of a resolvent. -/
def Fate.events (p : PredicateSymbol) : Fate → List Event
  | refutation => [.derivedEmpty p]
  | tautology => [.discardedTautology]
  | disjunctiveAnswer => [.droppedDisjunctiveAnswer]
  | returned | kept => []

/-- What becomes of a resolvent on a predicate, which may collect answers. -/
def Clause.fate (p : PredicateSymbol) (collects : Bool) (c : Clause) : Fate :=
  if c.isEmpty then .refutation
  else if c.isTautology then .tautology
  else if c.mentions p then
    if collects then .disjunctiveAnswer else .returned
  else .kept

/-- Put a clause at the end of a list, unless it is in the list or in another
one. -/
def appendNew (others clauses : List Clause) (c : Clause) : List Clause :=
  if others.contains c || clauses.contains c then clauses else clauses ++ [c]

namespace Elimination

/-- The elimination of a predicate from its bucket, before the first round. -/
def start (bucket : Bucket) (findings : Findings) : Elimination :=
  ⟨findings, .empty, bucket, .empty, [], #[], 0⟩

/-- The clauses of the bucket that belong to earlier rounds or to this one. -/
def bucket (state : Elimination) : Bucket := state.settled.append state.fresh

/-- Count and record a resolvent of two clauses. -/
def record (left right resolvent : Clause) (state : Elimination) : Elimination :=
  { state with
    resolutions := state.resolutions + 1
    findings :=
      { state.findings with
        generated := state.findings.generated + 1
        proof := state.findings.proof.record resolvent left right } }

/-- Add a resolvent to the clauses of the next round, on the sides on which it
has literals and is new. -/
def enqueue (p : PredicateSymbol) (c : Clause) (state : Elimination) : Elimination :=
  { state with
    added :=
      { positive :=
          if c.hasLiteralOn p .positive then
            appendNew state.bucket.positive state.added.positive c
          else state.added.positive
        negative :=
          if c.hasLiteralOn p .negative then
            appendNew state.bucket.negative state.added.negative c
          else state.added.negative } }

/-- Do with a resolvent what its fate says. -/
def place (p : PredicateSymbol) (c : Clause) (fate : Fate) (state : Elimination) : Elimination :=
  match fate with
  | .refutation => { state with findings := { state.findings with refuted := true } }
  | .tautology | .disjunctiveAnswer => state
  | .returned => state.enqueue p c
  | .kept => { state with kept := appendNew [] state.kept c }

/-- Take a resolvent of two clauses.  The search halts at a refutation if one is
enough, and at the cap. -/
def absorb (setup : Setup) (p : PredicateSymbol) (left right resolvent : Clause)
    (state : Elimination) : Monitored Event (Outcome Elimination) := do
  let fate := resolvent.fate p (state.findings.collects p)
  let state := (state.record left right resolvent).place p resolvent fate
  Monitored.tell (.resolved left right resolvent)
  Monitored.tellAll (fate.events p)
  if fate = .refutation ∧ setup.mode = .single then return .halted .refuted state
  else if setup.config.maxResolutions ≤ state.resolutions then
    Monitored.tell (.stopped p state.resolutions)
    return .halted .capped { state with findings := { state.findings with truncated := true } }
  else return .going state

/-! ## Rounds -/

/-- Resolve two clauses on a predicate.  All attempts come before the first
resolvent is taken. -/
def resolve (setup : Setup) (p : PredicateSymbol) (left right : Clause) (state : Elimination) :
    Monitored Event (Outcome Elimination) := do
  let (c, d, signature) := left.renameApart right state.findings.signature
  let attempts := Clause.attempts p c d
  let findings := { state.findings with signature := signature }
  match ← forEach (Findings.takeAttempt setup.config.answerFilter p) attempts findings with
  | .halted halt findings => return .halted halt { state with findings := findings }
  | .going findings =>
      forEach (absorb setup p left right) (Attempt.resolvents signature attempts)
        { state with findings := findings }

/-- How many pairs are tried from one look at the limits to the next. -/
def checkInterval : Nat := 64

/-- Look at the limits if it is time to. -/
def check (setup : Setup) (state : Elimination) : Monitored Event (Option GiveUp) :=
  if (state.tried.size + 1) % checkInterval = 0 then setup.config.limits.check setup.start
  else return none

/-- Try a pair of clauses. -/
def tryPair (setup : Setup) (p : PredicateSymbol) (pair : Clause × Clause) (state : Elimination) :
    Monitored Event (Outcome Elimination) := do
  match ← state.check setup with
  | some reason => return .halted (.gaveUp reason) state
  | none => resolve setup p pair.1 pair.2 { state with tried := state.tried.push pair }

/-- All pairs of an element of one list and one of another, in the order of the
first list, then of the second. -/
def pairs (left right : List Clause) : List (Clause × Clause) :=
  left.flatMap fun c => right.map fun d => (c, d)

/-- The pairs of different clauses that are tried in a round: those of a positive
and a negative clause that are not both settled. -/
def newPairs (state : Elimination) : List (Clause × Clause) :=
  (pairs state.settled.positive state.fresh.negative ++
    pairs state.fresh.positive (state.settled.negative ++ state.fresh.negative)).filter
    fun (c, d) => decide (c ≠ d)

/-- The state before the next round. -/
def nextRound (state : Elimination) : Elimination :=
  { state with settled := state.bucket, fresh := state.added, added := .empty }

/-- Go through the rounds.  There is another one after a round that made
resolvents, and it makes none if no clause is new. -/
def saturate (setup : Setup) (p : PredicateSymbol) (state : Elimination) :
    Monitored Event (Outcome Elimination) := do
  match ← forEach (tryPair setup p) state.newPairs state with
  | .halted halt state => return .halted halt state
  | .going after =>
      if state.resolutions < after.resolutions ∧
          after.resolutions < setup.config.maxResolutions then
        saturate setup p after.nextRound
      else return .going after.nextRound
termination_by setup.config.maxResolutions - state.resolutions
decreasing_by
  simp only [nextRound]
  omega

/-- Eliminate a predicate from its bucket. -/
def run (setup : Setup) (p : PredicateSymbol) (bucket : Bucket) (findings : Findings) :
    Monitored Event (Outcome Elimination) := do
  Monitored.tell (.eliminating p bucket.positive.length bucket.negative.length)
  match ← saturate setup p (start bucket findings) with
  | .halted halt state => return .halted halt state
  | .going state =>
      Monitored.tell (.eliminated p state.resolutions state.kept.length)
      return .going state

end Elimination

end Entailment.FirstOrder
