import Entailment.Proofs.FirstOrder.AnswerSearch
import Entailment.Proofs.FirstOrder.CanonicalRenumbering
import Entailment.Proofs.FirstOrder.EliminationRounds

/-!
# The tuples of terms behind the answers

The answers that a search reports are texts.  Behind them are tuples of terms: resolving two clauses
on the predicate of a query gives a tuple for each attempt that ends with the empty clause.  Which
tuples these are depends on the two clauses and on the canonical variables, and on nothing that is
reported.

The table of answers is a function of the tuples that came up, of the filter and of the signature.
A tuple is printed in the same way however many canonical variables have been created since, because
its variables are canonical ones.  A table is never refused a tuple when the literals on the
predicate of the query have an argument for each of its variables, and resolvents keep to that.
-/

namespace Entailment.FirstOrder

open Monitored (returns_bind)

variable {signature extended base : Signature} {p : PredicateSymbol} {c d r : Clause}
  {query : Option AnswerQuery} {filter : AnswerFilter} {found : List (List Term)}
variable {t : Term} {tuple : List Term}

/-! ## Filters -/

/-- The tuples that a filter is to let through: all of them, those without variables, or those that
consist of constants. -/
def AnswerFilter.Admits : AnswerFilter → List Term → Prop
  | .any, _ => True
  | .ground, tuple => ∀ t ∈ tuple, t.vars = []
  | .constantsOnly, tuple => ∀ t ∈ tuple, ∃ f, t = .app f []

theorem Term.isGround_iff_vars : t.isGround = true ↔ t.vars = [] := by
  induction t using Term.induction with
  | var v => simp [isGround]
  | app f args ih =>
      rw [isGround_app, vars_app, List.all_eq_true, List.flatMap_eq_nil_iff]
      exact forall₂_congr ih

theorem Term.isConstant_iff : t.isConstant = true ↔ ∃ f, t = .app f [] := by
  cases t with
  | var v => simp [isConstant]
  | app f args => cases args <;> simp [isConstant]

theorem AnswerFilter.accepts_iff : filter.accepts tuple = true ↔ filter.Admits tuple := by
  cases filter with
  | any => simp [accepts, Admits]
  | ground => simp [accepts, Admits, Term.isGround_iff_vars]
  | constantsOnly => simp [accepts, Admits, Term.isConstant_iff]

/-! ## Tuples of terms -/

/-- The tuple of terms that an attempt to resolve gives, if it gives the empty clause. -/
def Attempt.answer? (attempt : Attempt) : Option (List Term) :=
  if attempt.isRefutation then attempt.tuple? else none

/-- The tuples of terms that attempts to resolve on a predicate give for a query: there are none
unless the predicate is that of the query. -/
def answersOf (query : Option AnswerQuery) (p : PredicateSymbol) (attempts : List Attempt) :
    List (List Term) :=
  if query.any fun asked => decide (asked.predicate = p) then attempts.filterMap Attempt.answer?
  else []

theorem answersOf_append (query : Option AnswerQuery) (p : PredicateSymbol)
    (attempts others : List Attempt) :
    answersOf query p (attempts ++ others) =
      answersOf query p attempts ++ answersOf query p others := by
  unfold answersOf
  split
  · exact List.filterMap_append
  · rfl

theorem exists_of_mem_answersOf {attempts : List Attempt} {tuple : List Term}
    (mem : tuple ∈ answersOf query p attempts) :
    (∃ asked ∈ query, asked.predicate = p) ∧
      ∃ attempt ∈ attempts, attempt.isRefutation = true ∧ attempt.tuple? = some tuple := by
  unfold answersOf at mem
  split at mem
  · rename_i collects
    obtain ⟨asked, isAsked, onPredicate⟩ := (Option.any_eq_true ..).mp collects
    obtain ⟨attempt, attemptMem, given⟩ := List.mem_filterMap.mp mem
    exact ⟨⟨asked, isAsked, of_decide_eq_true onPredicate⟩, attempt, attemptMem,
      Option.ite_none_right_eq_some.mp given⟩
  · cases mem

/-- The tuples of terms that resolving two clauses on a predicate gives for a query. -/
def Clause.answerTuples (query : Option AnswerQuery) (p : PredicateSymbol) (c d : Clause)
    (signature : Signature) : List (List Term) :=
  let copies := c.renameApart d signature
  answersOf query p (copies.1.attempts p copies.2.1)

/-- The tuples of terms depend on which variables are canonical only. -/
theorem Signature.Follows.answerTuples (follows : base.Follows .same signature)
    (query : Option AnswerQuery) (p : PredicateSymbol) (c d : Clause) :
    c.answerTuples query p d signature = c.answerTuples query p d base := by
  obtain ⟨left, right, -⟩ := follows.renameApart c d
  simp only [Clause.renumber_same] at left right
  simp only [Clause.answerTuples, left, right]

theorem Clause.gainsVariables_renameApart (c d : Clause) (signature : Signature) :
    signature.GainsVariables (c.renameApart d signature).2.2 :=
  (Signature.reserveCanonical_spec _ _).1.trans (Signature.reserveCanonical_spec _ _).1

theorem Clause.canonicalAt_renameApart (c d : Clause) (signature : Signature) (index : Nat) :
    (c.renameApart d signature).2.2.canonicalAt index = signature.canonicalAt index := by
  simp only [renameApart, standardizeApart, Signature.canonicalAt_reserveCanonical]

/-- The variables of two clauses that were renamed apart are variables of the signature. -/
theorem Clause.index_lt_of_mem_vars_renameApart (has : signature.HasCanonical) {x : Variable}
    (mem : x ∈ (c.renameApart d signature).1.vars ∨ x ∈ (c.renameApart d signature).2.1.vars) :
    x.index < (c.renameApart d signature).2.2.vars.size := by
  obtain ⟨index, bound, rfl⟩ : ∃ index < c.vars.length + d.vars.length,
      x = signature.canonicalAt index := by
    rcases mem with inLeft | inRight
    · obtain ⟨index, bound, rfl⟩ := mem_vars_of_standardizeApart inLeft
      exact ⟨index, by omega, rfl⟩
    · obtain ⟨index, bound, rfl⟩ := mem_vars_of_standardizeApart inRight
      exact ⟨index, by omega, Signature.canonicalAt_reserveCanonical ..⟩
  have exists_canonical := Nat.lt_of_lt_of_le bound (c.canonicalSize_renameApart d signature)
  rw [← c.canonicalAt_renameApart d, Signature.canonicalAt_of_lt exists_canonical]
  exact ((c.gainsVariables_renameApart d signature).hasCanonical has).canonicalVariable_lt
    exists_canonical

/-- The variables of the terms that an attempt gives are variables of the two clauses. -/
theorem Attempt.mem_vars_of_tuple {attempt : Attempt} (mem : attempt ∈ c.attempts p d)
    (given : attempt.tuple? = some tuple) (tMem : t ∈ tuple) {x : Variable} (xMem : x ∈ t.vars) :
    x ∈ c.vars ∨ x ∈ d.vars := by
  obtain ⟨a, b, place, otherPlace, inLeft, inRight, -, -, rfl⟩ := Clause.mem_attempts.mp mem
  obtain ⟨σ, unified, rfl⟩ := Option.map_eq_some_iff.mp given
  obtain ⟨s, sMem, rfl⟩ := List.mem_map.mp tMem
  rw [Substitution.apply_eq_replace] at xMem
  obtain ⟨v, vMem, xMem⟩ := Term.mem_vars_replace xMem
  have ofAtom {e : Clause} {literal : Literal Atom} (inClause : literal ∈ e.literals)
      (xMem : x ∈ literal.atom.vars) : x ∈ e.vars := by
    rw [Atom.vars, Term.varsOfArgs_eq, List.mem_flatMap] at xMem
    obtain ⟨t, tMem, xMem⟩ := xMem
    exact Clause.mem_vars.mpr ⟨_, inClause, t, tMem, xMem⟩
  rcases Atom.mem_vars_of_unify unified xMem with rfl | inFirst | inSecond
  · exact .inl (Clause.mem_vars.mpr ⟨_, List.mem_of_getElem? inLeft, s, sMem, vMem⟩)
  · exact .inl (ofAtom (List.mem_of_getElem? inLeft) inFirst)
  · exact .inr (ofAtom (List.mem_of_getElem? inRight) inSecond)

/-! ## Printed tuples -/

/-- The variables of some tuples of terms are variables of a signature. -/
def Signature.Knows (signature : Signature) (found : List (List Term)) : Prop :=
  ∀ tuple ∈ found, ∀ t ∈ tuple, ∀ x ∈ t.vars, x.index < signature.vars.size

/-- The tuples that resolving two clauses gives are known once these have been renamed apart. -/
theorem Clause.knows_answerTuples (has : signature.HasCanonical) (query : Option AnswerQuery)
    (p : PredicateSymbol) (c d : Clause) :
    (c.renameApart d signature).2.2.Knows (c.answerTuples query p d signature) := by
  intro tuple tupleMem t tMem x xMem
  obtain ⟨-, attempt, mem, -, given⟩ := exists_of_mem_answersOf tupleMem
  exact index_lt_of_mem_vars_renameApart has (attempt.mem_vars_of_tuple mem given tMem xMem)

/-- A term whose variables are known is printed in the same way after variables were created. -/
theorem Signature.GainsVariables.renderTerm (gains : signature.GainsVariables extended)
    (known : ∀ x ∈ t.vars, x.index < signature.vars.size) :
    extended.renderTerm t = signature.renderTerm t := by
  induction t using Term.induction with
  | var v =>
      rw [Signature.renderTerm, Signature.renderTerm, gains.grows.variableName (known v (by simp))]
  | app f args ih =>
      have same (t : Term) (mem : t ∈ args) : extended.renderTerm t = signature.renderTerm t :=
        ih t mem fun x xMem =>
          known x (by rw [Term.vars_app]; exact List.mem_flatMap.mpr ⟨t, mem, xMem⟩)
      rw [Signature.renderTerm, Signature.renderTerm, Signature.functionInfo, gains.functions,
        Signature.renderTerms_eq, Signature.renderTerms_eq, List.map_congr_left same]
      rfl

theorem Signature.GainsVariables.knows (gains : signature.GainsVariables extended)
    (known : signature.Knows found) : extended.Knows found :=
  fun tuple tupleMem t tMem x xMem =>
    Nat.lt_of_lt_of_le (known tuple tupleMem t tMem x xMem) gains.grows.varsSize

/-- A query with the answers that some tuples of terms give under a filter, printed. -/
def AnswerQuery.reported (filter : AnswerFilter) (signature : Signature) (found : List (List Term))
    (asked : AnswerQuery) : AnswerQuery :=
  ⟨asked.predicate, asked.answers.vars,
    Sorted.ofList ((found.filter filter.accepts).map (List.map signature.renderTerm))⟩

theorem AnswerQuery.reported_gain (gains : signature.GainsVariables extended)
    (known : signature.Knows found) (filter : AnswerFilter) (asked : AnswerQuery) :
    asked.reported filter extended found = asked.reported filter signature found := by
  have same : (found.filter filter.accepts).map (List.map extended.renderTerm) =
      (found.filter filter.accepts).map (List.map signature.renderTerm) :=
    List.map_congr_left fun tuple tupleMem => List.map_congr_left fun t tMem =>
      gains.renderTerm (known tuple (List.mem_filter.mp tupleMem).1 t tMem)
  rw [reported, same]
  rfl

theorem AnswerQuery.reported_of_rejects {new : List (List Term)}
    (rejected : ∀ tuple ∈ new, ¬filter.accepts tuple = true) (signature : Signature)
    (found : List (List Term)) (asked : AnswerQuery) :
    asked.reported filter signature (found ++ new) = asked.reported filter signature found := by
  rw [reported, List.filter_append, List.filter_eq_nil_iff.mpr rejected, List.append_nil]
  rfl

theorem AnswerQuery.reported_of_accepts (accepted : filter.accepts tuple = true)
    (signature : Signature) (found : List (List Term)) (asked : AnswerQuery) :
    asked.reported filter signature (found ++ [tuple]) =
      ⟨asked.predicate, asked.answers.vars, Sorted.insert (tuple.map signature.renderTerm)
        (asked.reported filter signature found).answers.tuples⟩ := by
  refine congrArg (fun tuples => AnswerQuery.mk asked.predicate ⟨asked.answers.vars, tuples⟩) ?_
  refine (Sorted.isIncreasing_ofList _).eq_of_mem_iff
    (Sorted.isIncreasing_insert _ (Sorted.isIncreasing_ofList _)) fun printed => ?_
  simp only [Sorted.mem_ofList, Sorted.mem_insert, reported, List.filter_append,
    List.filter_cons_of_pos accepted, List.filter_nil, List.map_append, List.map_cons, List.map_nil,
    List.mem_append, List.mem_singleton]
  exact or_comm

/-! ## Clauses that fit a query -/

/-- The positive literals of a clause on the predicate of a query have an argument for each of its
variables. -/
def Clause.Fits (query : Option AnswerQuery) (c : Clause) : Prop :=
  ∀ asked ∈ query, ∀ a, .positive a ∈ c.literals → a.predicate = asked.predicate →
    a.args.length = asked.answers.arity

theorem Clause.Fits.apply (fits : c.Fits query) (σ : Substitution) : (c.apply σ).Fits query := by
  intro asked isAsked a mem onPredicate
  obtain ⟨⟨b, sign⟩, inClause, isInstance⟩ := mem_literals_apply.mp mem
  cases isInstance
  rw [Atom.apply, List.length_map]
  exact fits asked isAsked b inClause onPredicate

/-- The resolvents of clauses that fit a query fit it as well. -/
theorem Clause.Fits.resolvent (cFits : c.Fits query) (dFits : d.Fits query)
    (mem : r ∈ Attempt.resolvents extended (c.attempts p d)) : r.Fits query := by
  obtain ⟨attempt, attemptMem, given⟩ := List.mem_filterMap.mp mem
  obtain ⟨resolvent, resolved, rfl⟩ := Option.map_eq_some_iff.mp given
  obtain ⟨a, b, place, otherPlace, σ, -, -, -, -, -, -, rfl⟩ :=
    Attempt.exists_of_resolvent? attemptMem resolved
  refine Fits.apply (Fits.apply ?_ σ) _
  intro asked isAsked a mem onPredicate
  rcases Attempt.mem_of_mem_rest (Sorted.mem_ofList.mp mem) with inLeft | inRight
  · exact cFits asked isAsked a inLeft onPredicate
  · exact dFits asked isAsked a inRight onPredicate

/-! ## Taking answers -/

/-- Taking an attempt that fits adds what it gives to the table, if the predicate is that of the
query. -/
theorem Findings.eq_of_takeAttempt {attempt : Attempt} {findings : Findings}
    {ended : Outcome Findings}
    (fits : ∀ asked ∈ query, asked.predicate = p →
      attempt.positive.args.length = asked.answers.arity)
    (current : findings.answers = query.map (·.reported filter findings.signature found))
    (returned : (findings.takeAttempt filter p attempt).Returns ended) :
    ended = .going { findings with
      answers := query.map
        (·.reported filter findings.signature (found ++ answersOf query p [attempt])) } := by
  rcases takeAttempt_cases returned with ⟨rfl, nothing⟩ | ⟨asked, tuple, gives, taken⟩
  · have rejected : ∀ tuple ∈ answersOf query p [attempt], ¬filter.accepts tuple = true := by
      intro tuple mem accepted
      obtain ⟨⟨asked, isAsked, onPredicate⟩, _, isAttempt, isRefutation, isTuple⟩ :=
        exists_of_mem_answersOf mem
      obtain rfl := List.mem_singleton.mp isAttempt
      rw [Option.mem_def.mp isAsked] at current
      exact nothing _ tuple ⟨current, onPredicate, isRefutation, isTuple, accepted⟩
    simp only [AnswerQuery.reported_of_rejects rejected, ← current]
  · obtain ⟨original, rfl, rfl⟩ := Option.map_eq_some_iff.mp (current.symm.trans gives.current)
    have onPredicate : original.predicate = p := gives.onPredicate
    have isAnswer : answersOf (some original) p [attempt] = [tuple] := by
      simp [answersOf, Attempt.answer?, gives.isRefutation, gives.isTuple, onPredicate]
    rcases taken with ⟨-, rfl⟩ | ⟨misfits, -⟩
    · rw [isAnswer, Option.map_some, AnswerQuery.reported_of_accepts gives.accepted]
      rfl
    · obtain ⟨σ, -, rfl⟩ := Option.map_eq_some_iff.mp gives.isTuple
      exact absurd ((List.length_map ..).trans (fits original rfl onPredicate)) misfits

/-- Taking attempts that fit adds what they give to the table, if the predicate is that of the
query. -/
theorem Findings.eq_of_takeAttempts {attempts : List Attempt} {findings : Findings}
    {ended : Outcome Findings}
    (fits : ∀ asked ∈ query, asked.predicate = p → ∀ attempt ∈ attempts,
      attempt.positive.args.length = asked.answers.arity)
    (current : findings.answers = query.map (·.reported filter findings.signature found))
    (returned : (forEach (Findings.takeAttempt filter p) attempts findings).Returns ended) :
    ended = .going { findings with
      answers := query.map
        (·.reported filter findings.signature (found ++ answersOf query p attempts)) } := by
  induction attempts generalizing findings found with
  | nil =>
      cases returned
      have nothing : answersOf query p [] = [] := ite_self []
      rw [nothing, List.append_nil, ← current]
  | cons attempt rest ih =>
      obtain ⟨first, firstReturned, restReturned⟩ := (returns_bind ..).mp returned
      obtain rfl := eq_of_takeAttempt (fun asked isAsked onPredicate =>
        fits asked isAsked onPredicate attempt (List.mem_cons_self ..)) current firstReturned
      have later := @ih (found ++ answersOf query p [attempt]) _ (fun asked isAsked onPredicate
        other mem => fits asked isAsked onPredicate other (List.mem_cons_of_mem _ mem)) rfl
        restReturned
      rw [later, List.append_assoc, ← answersOf_append]
      rfl

end Entailment.FirstOrder
