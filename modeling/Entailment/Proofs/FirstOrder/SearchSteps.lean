import Entailment.FirstOrder.Refutation
import Entailment.Proofs.FirstOrder.StoreIndex
import Entailment.Proofs.Readings

/-!
# The steps of a search

What a step of a search can come to is said here once, whatever the clock and the memory gauge say:
looking at an attempt to resolve, taking a resolvent, trying a pair of clauses, going through the
rounds of an elimination, and eliminating one predicate after the other.  What holds during a search
is shown from this, and the search is not opened again.
-/

namespace Entailment.FirstOrder

open Monitored

variable {setup : Setup} {p : PredicateSymbol}
variable {c : Clause} {bucket : Bucket} {store : Store}

/-- A halt that is not a failure. -/
def Halt.IsRegular : Halt → Prop
  | .failed _ => False
  | .refuted | .capped | .gaveUp _ => True

/-! ## Answers -/

/-- An attempt to resolve on a predicate gives a tuple of terms as an answer to the query of a
search, and the filter lets it through. -/
structure Findings.Gives (filter : AnswerFilter) (p : PredicateSymbol) (attempt : Attempt)
    (query : AnswerQuery) (tuple : List Term) (findings : Findings) : Prop where
  current : findings.answers = some query
  onPredicate : query.predicate = p
  isRefutation : attempt.isRefutation = true
  isTuple : attempt.tuple? = some tuple
  accepted : filter.accepts tuple = true

/-- Findings with one more answer to their query. -/
def Findings.withAnswer (query : AnswerQuery) (printed : List String) (findings : Findings) :
    Findings :=
  { findings with
    answers := some { query with
      answers := { query.answers with tuples := Sorted.insert printed query.answers.tuples } } }

/-- Looking at an attempt adds the answer it gives to the table, which fails if the answer does not
have a value for each variable, and changes nothing if there is no answer. -/
theorem Findings.takeAttempt_cases {filter : AnswerFilter} {attempt : Attempt} {findings : Findings}
    {outcome : Outcome Findings}
    (returned : (findings.takeAttempt filter p attempt).Returns outcome) :
    (outcome = .going findings ∧ ∀ query tuple, ¬findings.Gives filter p attempt query tuple) ∨
      ∃ query tuple, findings.Gives filter p attempt query tuple ∧
        ((tuple.length = query.answers.vars.length ∧ outcome = .going
            (findings.withAnswer query (tuple.map findings.signature.renderTerm))) ∨
          (tuple.length ≠ query.answers.vars.length ∧
            ∃ error, outcome = .halted (.failed error) findings)) := by
  by_cases gives : ∃ query tuple, findings.Gives filter p attempt query tuple
  · obtain ⟨query, tuple, current, rfl, isRefutation, isTuple, accepted⟩ := gives
    refine .inr ⟨query, tuple, ⟨current, rfl, isRefutation, isTuple, accepted⟩, ?_⟩
    simp only [takeAttempt, current, isTuple, isRefutation, and_self, if_true, takeAnswer,
      accepted, Answers.add, Answers.arity, List.length_map, returns_bind, returns_tell, true_and,
      exists_const] at returned
    by_cases fits : tuple.length = query.answers.vars.length
    · simp only [fits, ne_eq, not_true, if_false, returns_bind, returns_tellAll, true_and,
        exists_const, returns_pure] at returned
      exact .inl ⟨fits, returned.symm⟩
    · simp only [ne_eq, fits, not_false_eq_true, if_true, returns_pure] at returned
      exact .inr ⟨fits, _, returned.symm⟩
  · refine .inl ⟨?_, fun query tuple isGiven => gives ⟨query, tuple, isGiven⟩⟩
    simp only [takeAttempt, returns_bind, returns_tell, true_and, exists_const] at returned
    split at returned
    · rename_i query tuple current isTuple
      split at returned
      · rename_i isAnswer
        unfold takeAnswer at returned
        split at returned
        · exact absurd ⟨query, tuple, current, isAnswer.1, isAnswer.2, isTuple, ‹_›⟩ gives
        · cases returned
          rfl
      · cases returned
        rfl
    · cases returned
      rfl

/-- Without a query an attempt changes nothing. -/
theorem Findings.eq_of_noQuery {filter : AnswerFilter} {attempts : List Attempt}
    {findings : Findings} {outcome : Outcome Findings} (noQuery : findings.answers = none)
    (returned : (forEach (takeAttempt filter p) attempts findings).Returns outcome) :
    outcome = .going findings := by
  have ends : outcome.Ends (· = findings) fun _ _ => False := by
    refine forEach_keeps (fun attempt _ state outcome same taken => ?_) rfl returned
    subst same
    rcases takeAttempt_cases taken with ⟨rfl, -⟩ | ⟨query, tuple, gives, -⟩
    · rfl
    · cases noQuery.symm.trans gives.current
  cases outcome with
  | going after => rw [ends]
  | halted halt after => exact ends.elim

/-! ## Buckets -/

theorem Bucket.mem_side_append {sign : Sign} {first second : Bucket} :
    c ∈ (first.append second).side sign ↔ c ∈ first.side sign ∨ c ∈ second.side sign := by
  cases sign <;> exact List.mem_append

theorem Bucket.not_mem_side_of_isEmpty {sign : Sign} (isEmpty : bucket.isEmpty = true) :
    c ∉ bucket.side sign := by
  simp only [Bucket.isEmpty, Bucket.size, beq_iff_eq, Nat.add_eq_zero_iff,
    List.length_eq_zero_iff] at isEmpty
  cases sign <;> simp [Bucket.side, isEmpty]

/-- The clauses of a store in the bucket of a predicate and those that are left without it. -/
structure Store.Splits (p : PredicateSymbol) (store : Store) (bucket : Bucket) (rest : Store) :
    Prop where
  taken : store.takeBucket p = .ok (bucket, rest)
  consistent : rest.Consistent
  mem_side : ∀ {sign c}, c ∈ bucket.side sign ↔ c ∈ store ∧ c.hasLiteralOn p sign = true
  mem_rest : ∀ {c}, c ∈ rest ↔ c ∈ store ∧ c.mentions p = false

theorem Store.Consistent.exists_splits (consistent : store.Consistent) (p : PredicateSymbol) :
    ∃ bucket rest, store.Splits p bucket rest := by
  obtain ⟨bucket, rest, taken, restConsistent, positive, negative, remains⟩ :=
    consistent.takeBucket p
  refine ⟨bucket, rest, taken, restConsistent, fun {sign c} => ?_, fun {c} => remains c⟩
  cases sign with
  | positive => exact positive c
  | negative => exact negative c

/-- A clause of the bucket is a clause of the store that mentions the predicate. -/
theorem Store.Splits.of_mem_bucket {rest : Store} (splits : store.Splits p bucket rest)
    (mem : c ∈ bucket.positive ∨ c ∈ bucket.negative) : c ∈ store ∧ c.mentions p = true := by
  obtain ⟨sign, onSide⟩ : ∃ sign, c ∈ bucket.side sign :=
    mem.elim (fun mem => ⟨.positive, mem⟩) fun mem => ⟨.negative, mem⟩
  exact (splits.mem_side.mp onSide).imp_right fun onIt => mentions_iff.mpr ⟨sign, onIt⟩

/-- If the bucket is empty, no clause mentions the predicate. -/
theorem Store.Splits.not_mentions {rest : Store} (splits : store.Splits p bucket rest)
    (isEmpty : bucket.isEmpty = true) (mem : c ∈ store) : c.mentions p = false := by
  refine Bool.eq_false_iff.mpr fun mentioned => ?_
  obtain ⟨sign, onSide⟩ := mentions_iff.mp mentioned
  exact Bucket.not_mem_side_of_isEmpty isEmpty (splits.mem_side.mpr ⟨mem, onSide⟩)

/-! ## One elimination -/

namespace Elimination

variable {state after : Elimination} {outcome : Outcome Elimination}
variable {pair : Clause × Clause}

/-- The state with a resolvent where it belongs. -/
def withResolvent (p : PredicateSymbol) (collects : Bool) (left right r : Clause)
    (state : Elimination) : Elimination :=
  (state.record left right r).place p r (r.fate p collects)

/-- Mark an elimination as cut short. -/
def truncate (state : Elimination) : Elimination :=
  { state with findings := { state.findings with truncated := true } }

theorem resolutions_withResolvent {collects : Bool} {left right r : Clause} :
    (state.withResolvent p collects left right r).resolutions = state.resolutions + 1 := by
  unfold withResolvent
  cases r.fate p collects <;> rfl

/-- Taking a resolvent puts it where it belongs.  The elimination is halted at a refutation if one
is enough, and at the cap. -/
theorem absorb_cases {collects : Bool} {left right r : Clause}
    (collecting : state.findings.collects p = collects)
    (returned : (absorb setup p left right r state).Returns outcome) :
    (outcome = .halted .refuted (state.withResolvent p collects left right r) ∧
        setup.mode = .single ∧ r.fate p collects = .refutation) ∨
      (outcome = .halted .capped (state.withResolvent p collects left right r).truncate ∧
        setup.config.maxResolutions ≤ state.resolutions + 1) ∨
      (outcome = .going (state.withResolvent p collects left right r) ∧
        state.resolutions + 1 < setup.config.maxResolutions) := by
  have isPlaced : (state.record left right r).place p r (r.fate p collects) =
      state.withResolvent p collects left right r := rfl
  rw [← @resolutions_withResolvent p state collects left right r]
  simp only [absorb, collecting, isPlaced, returns_bind, returns_tell, returns_tellAll, true_and,
    exists_const] at returned
  split at returned
  · rename_i isRefutation
    exact .inl ⟨returned.symm, isRefutation.2, isRefutation.1⟩
  · split at returned
    · simp only [returns_bind, returns_tell, true_and, exists_const, returns_pure] at returned
      exact .inr (.inl ⟨returned.symm, ‹_›⟩)
    · exact .inr (.inr ⟨returned.symm, Nat.not_le.mp ‹_›⟩)

/-- A pair of clauses is resolved, unless a limit is passed. -/
theorem tryPair_cases (returned : (tryPair setup p pair state).Returns outcome) :
    (∃ reason, outcome = .halted (.gaveUp reason) state) ∨
      (resolve setup p pair.1 pair.2 { state with tried := state.tried.push pair }).Returns
        outcome := by
  obtain ⟨checked, -, returned⟩ := (returns_bind ..).mp returned
  cases checked with
  | some reason => exact .inl ⟨reason, returned.symm⟩
  | none => exact .inr returned

/-- Resolving two clauses: first the attempts are looked at, with the signature that has the copies,
and then their resolvents are taken. -/
theorem resolve_ends {left right d : Clause} {extended : Signature}
    {invariant : Elimination → Prop} {halted : Halt → Elimination → Prop} (looked : Findings → Prop)
    (renamed : left.renameApart right state.findings.signature = (c, d, extended))
    (look : ∀ attempt ∈ c.attempts p d, ∀ findings outcome, looked findings →
      (findings.takeAttempt setup.config.answerFilter p attempt).Returns outcome →
        outcome.Ends looked fun halt after => halted halt { state with findings := after })
    (start : looked { state.findings with signature := extended })
    (begins : ∀ findings, looked findings → invariant { state with findings := findings })
    (take : ∀ r ∈ Attempt.resolvents extended (c.attempts p d), ∀ during outcome,
      invariant during → (absorb setup p left right r during).Returns outcome →
        outcome.Ends invariant halted)
    (returned : (resolve setup p left right state).Returns outcome) :
    outcome.Ends invariant halted := by
  simp only [resolve, renamed, returns_bind] at returned
  obtain ⟨attempted, attemptsReturned, returned⟩ := returned
  have afterAttempts := forEach_keeps look start attemptsReturned
  cases attempted with
  | halted halt findings =>
      cases returned
      exact afterAttempts
  | going findings => exact forEach_keeps take (begins findings afterAttempts) returned

theorem eq_none_of_check {start : Duration} {reason : Option GiveUp}
    (returned : (Limits.check .unlimited start : Monitored Event _).Returns reason) :
    reason = none := by
  cases returned
  rfl

/-- Without limits every pair is resolved. -/
theorem resolve_of_tryPair (unlimited : setup.config.limits = .unlimited)
    (returned : (tryPair setup p pair state).Returns outcome) :
    (resolve setup p pair.1 pair.2 { state with tried := state.tried.push pair }).Returns
      outcome := by
  obtain ⟨checked, checkReturned, returned⟩ := (returns_bind ..).mp returned
  have goesOn : checked = none := by
    unfold Elimination.check at checkReturned
    split at checkReturned
    · rw [unlimited] at checkReturned
      exact eq_none_of_check checkReturned
    · cases checkReturned
      rfl
  subst goesOn
  exact returned

theorem mem_pairs {left right : List Clause} :
    pair ∈ pairs left right ↔ pair.1 ∈ left ∧ pair.2 ∈ right := by
  obtain ⟨c, d⟩ := pair
  simp [pairs]

/-- The pairs of a round: both clauses are in the bucket, one of them is new, and
they are different. -/
theorem mem_newPairs :
    pair ∈ state.newPairs ↔
      pair.1 ∈ state.bucket.positive ∧ pair.2 ∈ state.bucket.negative ∧
        (pair.1 ∈ state.fresh.positive ∨ pair.2 ∈ state.fresh.negative) ∧ pair.1 ≠ pair.2 := by
  simp only [newPairs, List.mem_filter, List.mem_append, mem_pairs, bucket, Bucket.append,
    decide_eq_true_eq]
  grind

/-- What holds before each round holds at the end, unless a round is halted.  There is another round
after one that made resolvents, while there is room below the cap. -/
theorem saturate_ends {invariant finished : Elimination → Prop} {halted : Halt → Elimination → Prop}
    (round : ∀ {state outcome}, invariant state →
      (forEach (tryPair setup p) state.newPairs state).Returns outcome →
      outcome.Ends (fun after => invariant after.nextRound ∧
        (¬(state.resolutions < after.resolutions ∧
          after.resolutions < setup.config.maxResolutions) → finished after.nextRound)) halted)
    (start : invariant state) (returned : (saturate setup p state).Returns outcome) :
    outcome.Ends finished halted := by
  induction state using saturate.induct setup with
  | case1 state ih =>
      rw [saturate] at returned
      obtain ⟨ended, endedReturned, returned⟩ := (returns_bind ..).mp returned
      have afterRound := round start endedReturned
      cases ended with
      | halted halt after =>
          cases returned
          exact afterRound
      | going after =>
          simp only at returned
          split at returned
          · exact ih after ‹_› afterRound.1 returned
          · cases returned
            exact afterRound.2 ‹_›

/-- An elimination ends with what its rounds end with. -/
theorem saturate_of_run {findings : Findings}
    (returned : (run setup p bucket findings).Returns outcome) :
    (saturate setup p (start bucket findings)).Returns outcome := by
  simp only [run, returns_bind, returns_tell, true_and, exists_const] at returned
  obtain ⟨ended, endedReturned, returned⟩ := returned
  cases ended <;> cases returned <;> exact endedReturned

/-- An invariant of an elimination that trying pairs of its clauses keeps.  What is `good` of a
clause stays so in all findings that are led to. -/
structure Preserves (setup : Setup) (p : PredicateSymbol) (invariant : Elimination → Prop)
    (good : Findings → Clause → Prop) (leads : Findings → Findings → Prop) (halts : Halt → Prop) :
    Prop where
  refl : ∀ findings, leads findings findings
  trans : ∀ {first second third}, leads first second → leads second third → leads first third
  mono : ∀ {findings after c}, leads findings after → good findings c → good after c
  clauses : ∀ {state}, invariant state → ∀ c,
    c ∈ state.bucket.positive ∨ c ∈ state.bucket.negative → good state.findings c
  nextRound : ∀ {state}, invariant state → invariant state.nextRound
  step : ∀ {pair state outcome}, invariant state → good state.findings pair.1 →
    good state.findings pair.2 → (tryPair setup p pair state).Returns outcome →
      outcome.Keeps (fun after => invariant after ∧ leads state.findings after.findings) halts

/-- A whole elimination keeps what trying a pair keeps. -/
theorem Preserves.run {invariant : Elimination → Prop} {good : Findings → Clause → Prop}
    {leads : Findings → Findings → Prop} {halts : Halt → Prop}
    (preserves : Preserves setup p invariant good leads halts) {findings : Findings}
    (started : invariant (start bucket findings))
    (returned : (run setup p bucket findings).Returns outcome) :
    outcome.Keeps (fun after => invariant after ∧ leads findings after.findings) halts := by
  refine @saturate_ends setup p _ outcome
    (fun state => invariant state ∧ leads findings state.findings) _ _
    (fun {state outcome} kept roundReturned => ?_) ⟨started, preserves.refl _⟩
    (saturate_of_run returned)
  -- The clauses of the pairs are good from the start of the round on.
  have inRound : outcome.Keeps (fun after => invariant after ∧
      leads state.findings after.findings) halts := by
    refine forEach_keeps (fun pair mem during outcome soFar tried => ?_)
      ⟨kept.1, preserves.refl _⟩ roundReturned
    obtain ⟨leftMem, rightMem, -⟩ := mem_newPairs.mp mem
    have stepped := preserves.step soFar.1
      (preserves.mono soFar.2 (preserves.clauses kept.1 _ (.inl leftMem)))
      (preserves.mono soFar.2 (preserves.clauses kept.1 _ (.inr rightMem))) tried
    cases outcome with
    | going after => exact ⟨stepped.1, preserves.trans soFar.2 stepped.2⟩
    | halted halt after => exact ⟨stepped.1, stepped.2.1, preserves.trans soFar.2 stepped.2.2⟩
  cases outcome with
  | halted halt after => exact ⟨inRound.1, inRound.2.1, preserves.trans kept.2 inRound.2.2⟩
  | going after =>
      have next : invariant after.nextRound ∧ leads findings after.nextRound.findings :=
        ⟨preserves.nextRound inRound.1, preserves.trans kept.2 inRound.2⟩
      exact ⟨next, fun _ => next⟩

end Elimination

/-! ## A search -/

namespace Search

variable {rest : Store}

/-- A search goes on after an elimination that came to its end or was cut short at the cap, and is
halted with any other one. -/
def goOn (rest : Store) : Outcome Elimination → Outcome Search
  | .going state => .going (after rest state)
  | .halted .capped state => .going (after rest state)
  | .halted halt state => .halted halt (after rest state)

theorem state_goOn {ended : Outcome Elimination} :
    (goOn rest ended).state = after rest ended.state := by
  rcases ended with state | ⟨halt, state⟩
  · rfl
  · cases halt <;> rfl

theorem goOn_ends {ended : Outcome Elimination} {going : Search → Prop}
    {halted : Halt → Search → Prop}
    (ends : ended.Ends (fun state => going (after rest state)) fun halt state => (halt = .capped →
      going (after rest state)) ∧ (halt ≠ .capped → halted halt (after rest state))) :
    (goOn rest ended).Ends going halted := by
  cases ended with
  | going state => exact ends
  | halted halt state =>
      cases halt with
      | capped => exact ends.1 rfl
      | refuted | gaveUp | failed => exact ends.2 nofun

/-- Eliminating a predicate: a predicate without clauses is passed over, and the bucket of any other
one is taken out of the store. -/
inductive Eliminates (setup : Setup) (p : PredicateSymbol) (search : Search) :
    Outcome Search → Prop
  | passedOver {bucket : Bucket} {rest : Store} (splits : search.store.Splits p bucket rest)
      (isEmpty : bucket.isEmpty = true) :
      Eliminates setup p search (.going ⟨rest, search.findings⟩)
  | eliminated {bucket : Bucket} {rest : Store} {ended : Outcome Elimination}
      (splits : search.store.Splits p bucket rest) (notEmpty : bucket.isEmpty = false)
      (returned : (Elimination.run setup p bucket search.findings).Returns ended) :
      Eliminates setup p search (goOn rest ended)

variable {search : Search} {outcome : Outcome Search}

/-- A predicate is eliminated, unless a limit is passed. -/
theorem eliminate_cases (consistent : search.store.Consistent)
    (returned : (eliminate setup p search).Returns outcome) :
    (∃ reason, (setup.config.limits.check setup.start : Monitored Event _).Returns (some reason) ∧
        outcome = .halted (.gaveUp reason) search) ∨ Eliminates setup p search outcome := by
  obtain ⟨checked, checkReturned, returned⟩ := (returns_bind ..).mp returned
  cases checked with
  | some reason => exact .inl ⟨reason, checkReturned, returned.symm⟩
  | none =>
      obtain ⟨bucket, rest, splits⟩ := consistent.exists_splits p
      simp only [splits.taken] at returned
      split at returned
      · cases returned
        exact .inr (.passedOver splits ‹_›)
      · obtain ⟨ended, endedReturned, returned⟩ := (returns_bind ..).mp returned
        have isNext : outcome = goOn rest ended := by
          rcases ended with state | ⟨_ | _ | _ | _, state⟩ <;> exact returned.symm
        exact .inr (isNext ▸ .eliminated splits (Bool.eq_false_iff.mpr ‹_›) endedReturned)

/-- Without limits every predicate is eliminated. -/
theorem eliminates_of_unlimited (unlimited : setup.config.limits = .unlimited)
    (consistent : search.store.Consistent)
    (returned : (eliminate setup p search).Returns outcome) :
    Eliminates setup p search outcome := by
  refine (eliminate_cases consistent returned).resolve_left ?_
  rintro ⟨reason, checked, -⟩
  rw [unlimited] at checked
  cases Elimination.eq_none_of_check checked

/-- What eliminating a predicate comes to, once its bucket is known. -/
theorem Eliminates.of_taken (eliminates : Eliminates setup p search outcome)
    (taken : search.store.takeBucket p = .ok (bucket, rest)) :
    if bucket.isEmpty then outcome = .going ⟨rest, search.findings⟩
    else ∃ ended, (Elimination.run setup p bucket search.findings).Returns ended ∧
      outcome = goOn rest ended := by
  cases eliminates with
  | passedOver splits isEmpty =>
      cases taken.symm.trans splits.taken
      rw [if_pos isEmpty]
  | eliminated splits notEmpty returned =>
      cases taken.symm.trans splits.taken
      rw [notEmpty]
      exact ⟨_, returned, rfl⟩

/-- The search, with a note if its store has the empty clause. -/
def noted (search : Search) : Search :=
  if search.store.containsEmpty then
    { search with findings := { search.findings with refuted := true } }
  else search

/-- A search ends at once if its store has the empty clause and one refutation is enough.
Otherwise it goes through its order. -/
theorem of_run {order : EliminationOrder} (returned : (search.run setup order).Returns outcome) :
    if search.store.containsEmpty = true ∧ setup.mode = .single then
      outcome = .halted .refuted search.noted
    else (forEach (eliminate setup) order.order search.noted).Returns outcome := by
  unfold run at returned
  unfold noted
  cases hasEmpty : search.store.containsEmpty with
  | false => simpa [hasEmpty] using returned
  | true =>
      simp only [hasEmpty, if_true, returns_bind, returns_tell, true_and, exists_const]
        at returned ⊢
      split at returned <;> rename_i single
      · rw [if_pos single]
        exact returned.symm
      · rwa [if_neg single]

/-- A run of a search, in terms of what each elimination does: `ahead` holds of
the predicates that are left and of the search before them. -/
theorem run_returns {order : EliminationOrder} {ahead : List PredicateSymbol → Search → Prop}
    {halted : Halt → Search → Prop}
    (step : ∀ p rest search outcome, ahead (p :: rest) search →
      (eliminate setup p search).Returns outcome → outcome.Ends (ahead rest) halted)
    (start : search.store.containsEmpty = false → ahead order.order search)
    (alreadyRefuted : search.store.containsEmpty = true →
      ahead order.order { search with findings := { search.findings with refuted := true } } ∧
        halted .refuted { search with findings := { search.findings with refuted := true } })
    (returned : (search.run setup order).Returns outcome) : outcome.Ends (ahead []) halted := by
  have ended := of_run returned
  unfold noted at ended
  split at ended
  · rename_i isRefuted
    rw [if_pos isRefuted.1] at ended
    exact ended ▸ (alreadyRefuted isRefuted.1).2
  · split at ended
    · exact forEach_returns step (alreadyRefuted ‹_›).1 ended
    · exact forEach_returns step (start (Bool.eq_false_iff.mpr ‹_›)) ended

/-- A run of a search keeps what each elimination keeps. -/
theorem run_ends {order : EliminationOrder} {invariant : Search → Prop}
    {halted : Halt → Search → Prop}
    (step : ∀ p search outcome, invariant search →
      (eliminate setup p search).Returns outcome → outcome.Ends invariant halted)
    (start : invariant search)
    (alreadyRefuted : search.store.containsEmpty = true →
      invariant { search with findings := { search.findings with refuted := true } } ∧
        halted .refuted { search with findings := { search.findings with refuted := true } })
    (returned : (search.run setup order).Returns outcome) : outcome.Ends invariant halted :=
  @run_returns setup search outcome order (fun _ => invariant) halted (fun p _ => step p)
    (fun _ => start) alreadyRefuted returned

end Search

end Entailment.FirstOrder
