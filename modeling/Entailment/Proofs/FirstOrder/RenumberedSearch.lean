import Entailment.Proofs.FirstOrder.RenumberedOrder
import Entailment.Proofs.FirstOrder.SearchBudget

/-!
# Searches in step

Two searches without limits that start from clauses of which the one are the others
renumbered go through the same steps: their states stay renumbered, and they end in
the same way.  The searches may have created canonical variables of different
numbers, and what they report may differ: `Corresponds` asks only that looking at
attempts to resolve keeps the tables of answers of the two in some relation.
-/

namespace Entailment.Monitored

variable {ε α γ α' γ' : Type}

/-- Whatever two computations end with is related. -/
def Pairs (related : α → γ → Prop) (first : Monitored ε α) (second : Monitored ε γ) : Prop :=
  ∀ value other, first.Returns value → second.Returns other → related value other

theorem Pairs.bind {related : α → γ → Prop} {after : α' → γ' → Prop} {first : Monitored ε α}
    {second : Monitored ε γ} {next : α → Monitored ε α'} {otherNext : γ → Monitored ε γ'}
    (pairs : Pairs related first second)
    (step : ∀ value other, related value other → Pairs after (next value) (otherNext other)) :
    Pairs after (first >>= next) (second >>= otherNext) := by
  intro result otherResult returned otherReturned
  obtain ⟨value, firstReturned, nextReturned⟩ := (returns_bind ..).mp returned
  obtain ⟨other, secondReturned, otherNextReturned⟩ := (returns_bind ..).mp otherReturned
  exact step value other (pairs value other firstReturned secondReturned) result otherResult
    nextReturned otherNextReturned

theorem Pairs.pure {related : α → γ → Prop} {value : α} {other : γ}
    (isRelated : related value other) :
    Pairs related (pure value : Monitored ε α) (pure other) := by
  rintro _ _ rfl rfl
  exact isRelated

/-- What is only reported does not matter. -/
theorem Pairs.skip {related : α → γ → Prop} {first second : Monitored ε Unit} {next : Monitored ε α}
    {otherNext : Monitored ε γ} (pairs : Pairs related next otherNext) :
    Pairs related (first >>= fun _ => next) (second >>= fun _ => otherNext) :=
  have ignored : Pairs (fun _ _ => True) first second := fun _ _ _ _ => trivial
  ignored.bind fun _ _ _ => pairs

end Entailment.Monitored

namespace Entailment.FirstOrder

open Monitored (Pairs returns_bind)

/-- Two outcomes that are both going or both halted in the same way, which is no failure, in related
states. -/
inductive Outcome.Pairs {σ : Type} (related : σ → σ → Prop) : Outcome σ → Outcome σ → Prop
  | going {state other : σ} (isRelated : related state other) :
      Outcome.Pairs related (.going state) (.going other)
  | halted {halt : Halt} {state other : σ} (regular : halt.IsRegular)
      (isRelated : related state other) :
      Outcome.Pairs related (.halted halt state) (.halted halt other)

/-- Two loops over corresponding items whose bodies take related states to related
states. -/
theorem forEach_pairs {α γ σ : Type} {related : σ → σ → Prop} {image : α → γ}
    {body : α → σ → Monitored Event (Outcome σ)} {otherBody : γ → σ → Monitored Event (Outcome σ)}
    {items : List α}
    (step : ∀ item ∈ items, ∀ state other, related state other →
      Pairs (Outcome.Pairs related) (body item state) (otherBody (image item) other))
    {state other : σ} (start : related state other) :
    Pairs (Outcome.Pairs related) (forEach body items state)
      (forEach otherBody (items.map image) other) := by
  induction items generalizing state other with
  | nil => exact Pairs.pure (.going start)
  | cons item rest ih =>
      refine Pairs.bind (step item (List.mem_cons_self ..) state other start) ?_
      rintro _ _ (isRelated | ⟨regular, isRelated⟩)
      · exact ih (fun item mem => step item (List.mem_cons_of_mem _ mem)) isRelated
      · exact Pairs.pure (.halted regular isRelated)

/-! ## The clauses of a store in order -/

namespace Store

variable {store : Store}

theorem mem_clauses_iff {c : Clause} : c ∈ store.clauses ↔ c ∈ store := by
  simp [clauses, mem_toList_iff, mem_def]

/-- A new clause comes last. -/
theorem IsIndexed.clauses_insert (indexed : store.IsIndexed) (c : Clause) :
    (store.insert c).2.clauses =
      if c ∈ store.clauses then store.clauses else store.clauses ++ [c] := by
  have present_iff : store.contains c = true ↔ c ∈ store.clauses :=
    indexed.contains_iff.trans mem_clauses_iff.symm
  by_cases present : c ∈ store.clauses
  · rw [if_pos present, Store.insert, if_pos (present_iff.mpr present)]
  · have absent : store.contains c = false := by
      rw [← Bool.not_eq_true, present_iff]
      exact present
    rw [if_neg present, clauses, toList_insert absent, List.map_append]
    rfl

/-- Taking out a bucket leaves the clauses without the predicate. -/
theorem IsIndexed.clauses_takeBucket (indexed : store.IsIndexed) (p : PredicateSymbol) :
    ∃ bucket rest, store.takeBucket p = .ok (bucket, rest) ∧ rest.IsIndexed ∧
      (∀ sign, bucket.side sign = store.clauses.filter fun c => c.hasLiteralOn p sign) ∧
      rest.clauses = store.clauses.filter fun c => !c.mentions p := by
  obtain ⟨bucket, rest, taken, restIndexed, -, sides, rest_get?⟩ := indexed.takeBucket p
  refine ⟨bucket, rest, taken, restIndexed, fun sign => ?_, ?_⟩
  · rw [sides, clauses, List.filter_map]
    rfl
  · have left : rest.toList = store.toList.filter fun entry => !entry.2.mentions p := by
      refine pairwise_toList.eq_of_mem_iff (pairwise_toList.filter _) fun entry => ?_
      obtain ⟨id, c⟩ := entry
      rw [List.mem_filter, mem_toList_iff, mem_toList_iff, rest_get?, Option.filter_eq_some_iff]
    rw [clauses, left, clauses, List.filter_map]
    rfl

end Store

/-! ## Eliminating a predicate -/

variable {ρ : Renumbering} {p : PredicateSymbol} {setup other : Setup}

/-- A bucket over the new numbers. -/
def Bucket.renumber (ρ : Renumbering) (bucket : Bucket) : Bucket :=
  ⟨bucket.positive.map (Clause.renumber ρ), bucket.negative.map (Clause.renumber ρ)⟩

/-- Two searches have found out the same, whatever they report. -/
structure Findings.Renumbers (ρ : Renumbering) (findings renumbered : Findings) : Prop where
  signature : findings.signature.Follows ρ renumbered.signature
  refuted : renumbered.refuted = findings.refuted
  truncated : renumbered.truncated = findings.truncated
  generated : renumbered.generated = findings.generated

theorem Clause.fate_renumber (collects : Bool) (c : Clause) :
    (c.renumber ρ).fate (ρ.onPredicate p) collects = c.fate p collects := by
  simp only [fate, isEmpty_renumber, isTautology_renumber, mentions_renumber]

theorem contains_map_renumber (clauses : List Clause) (c : Clause) :
    (clauses.map (Clause.renumber ρ)).contains (c.renumber ρ) = clauses.contains c := by
  simp [List.contains_eq_mem]

theorem appendNew_renumber (others clauses : List Clause) (c : Clause) :
    appendNew (others.map (Clause.renumber ρ)) (clauses.map (Clause.renumber ρ)) (c.renumber ρ) =
      (appendNew others clauses c).map (Clause.renumber ρ) := by
  simp only [appendNew, contains_map_renumber]
  split
  · rfl
  · simp

namespace Elimination

theorem pairs_renumber (left right : List Clause) :
    pairs (left.map (Clause.renumber ρ)) (right.map (Clause.renumber ρ)) =
      (pairs left right).map (Prod.map (Clause.renumber ρ) (Clause.renumber ρ)) := by
  simp [pairs, List.flatMap_map, List.map_flatMap, Function.comp_def]

/-- Two eliminations have come equally far. -/
structure Renumbers (ρ : Renumbering) (state renumbered : Elimination) : Prop where
  findings : state.findings.Renumbers ρ renumbered.findings
  settled : renumbered.settled = state.settled.renumber ρ
  fresh : renumbered.fresh = state.fresh.renumber ρ
  added : renumbered.added = state.added.renumber ρ
  kept : renumbered.kept = state.kept.map (Clause.renumber ρ)
  resolutions : renumbered.resolutions = state.resolutions

namespace Renumbers

variable {state renumbered : Elimination}

theorem bucket (renumbers : state.Renumbers ρ renumbered) :
    renumbered.bucket = state.bucket.renumber ρ := by
  simp [Elimination.bucket, Bucket.append, renumbers.settled, renumbers.fresh, Bucket.renumber]

theorem record (renumbers : state.Renumbers ρ renumbered)
    (left right otherLeft otherRight r d : Clause) :
    (state.record left right r).Renumbers ρ (renumbered.record otherLeft otherRight d) :=
  { renumbers with
    findings := { renumbers.findings with
      generated := congrArg (· + 1) renumbers.findings.generated }
    resolutions := congrArg (· + 1) renumbers.resolutions }

theorem enqueue (renumbers : state.Renumbers ρ renumbered) (r : Clause) :
    (state.enqueue p r).Renumbers ρ (renumbered.enqueue (ρ.onPredicate p) (r.renumber ρ)) :=
  { renumbers with
    added := by
      simp only [Elimination.enqueue, Clause.hasLiteralOn_renumber, renumbers.bucket,
        renumbers.added, Bucket.renumber, appendNew_renumber,
        apply_ite (List.map (Clause.renumber ρ))] }

/-- The same becomes of a resolvent in both eliminations. -/
theorem place (renumbers : state.Renumbers ρ renumbered) (r : Clause) (fate : Fate) :
    (state.place p r fate).Renumbers ρ
      (renumbered.place (ρ.onPredicate p) (r.renumber ρ) fate) := by
  cases fate with
  | refutation => exact { renumbers with findings := { renumbers.findings with refuted := rfl } }
  | tautology | disjunctiveAnswer => exact renumbers
  | returned => exact renumbers.enqueue r
  | kept =>
      refine { renumbers with kept := ?_ }
      simp only [Elimination.place, renumbers.kept]
      exact appendNew_renumber [] state.kept r

theorem nextRound (renumbers : state.Renumbers ρ renumbered) :
    state.nextRound.Renumbers ρ renumbered.nextRound :=
  { renumbers with settled := renumbers.bucket, fresh := renumbers.added, added := rfl }

theorem newPairs (renumbers : state.Renumbers ρ renumbered) :
    renumbered.newPairs =
      state.newPairs.map (Prod.map (Clause.renumber ρ) (Clause.renumber ρ)) := by
  simp only [Elimination.newPairs, renumbers.settled, renumbers.fresh, Bucket.renumber,
    ← List.map_append, pairs_renumber, List.filter_map]
  refine congrArg (List.map _) (List.filter_congr fun pair _ => ?_)
  simp

end Renumbers

end Elimination

/-! ## What is reported -/

/-- A pair of clauses that was tried, with the predicate it was resolved on. -/
abbrev TriedPair := PredicateSymbol × Clause × Clause

/-- A table of answers, with the signature that they are printed with. -/
abbrev Table := Signature × Option AnswerQuery

def Findings.table (findings : Findings) : Table := (findings.signature, findings.answers)

/-- Two setups without limits, under which the tables of answers of two searches stay related when
the attempts to resolve two clauses are looked at.  The relation may depend on all pairs that were
tried, and something is known about the clauses. -/
structure Corresponds (ρ : Renumbering) (setup other : Setup) (good : Clause → Prop)
    (tables : List TriedPair → Table → Table → Prop) : Prop where
  mode : other.mode = setup.mode
  maxResolutions : other.config.maxResolutions = setup.config.maxResolutions
  unlimited : setup.config.limits = .unlimited
  otherUnlimited : other.config.limits = .unlimited
  resolvent : ∀ {p c d r signature}, good c → good d → r ∈ (c.resolvents p d signature).1 → good r
  collects : ∀ {tried} {findings others : Findings}, tables tried findings.table others.table →
    ∀ p, others.collects (ρ.onPredicate p) = findings.collects p
  looks : ∀ {p c d tried} {state others : Elimination}, good c →
    state.findings.Renumbers ρ others.findings →
    tables tried state.findings.table others.findings.table →
    Pairs (fun ended otherEnded => ∃ found otherFound, ended = .going found ∧
        otherEnded = .going otherFound ∧ found.Renumbers ρ otherFound ∧
        tables (tried ++ [(p, c, d)]) found.table otherFound.table)
      (Elimination.lookAt setup p (c, d) state)
      (Elimination.lookAt other (ρ.onPredicate p) (c.renumber ρ, d.renumber ρ) others)

variable {good : Clause → Prop} {tables : List TriedPair → Table → Table → Prop}
  {before : List TriedPair}

namespace Elimination

/-- Two eliminations in step, when some pairs were tried before them. -/
structure InStep (ρ : Renumbering) (good : Clause → Prop)
    (tables : List TriedPair → Table → Table → Prop) (before : List TriedPair)
    (p : PredicateSymbol) (state others : Elimination) : Prop extends
    state.Renumbers ρ others where
  tables : tables (before ++ state.tried.toList.map (Prod.mk p)) state.findings.table
    others.findings.table
  side : ∀ sign, ∀ c ∈ state.side sign, good c
  inKept : ∀ c ∈ state.kept, good c

namespace InStep

variable {state others : Elimination}

theorem nextRound (inStep : state.InStep ρ good tables before p others) :
    state.nextRound.InStep ρ good tables before p others.nextRound where
  toRenumbers := inStep.toRenumbers.nextRound
  tables := inStep.tables
  side sign c mem := inStep.side sign c (mem_side_nextRound.mp mem)
  inKept := inStep.inKept

variable (corresponds : Corresponds ρ setup other good tables)

include corresponds

/-- Taking a resolvent halts both eliminations or none. -/
theorem absorb (inStep : state.InStep ρ good tables before p others) (left right : Clause)
    {r : Clause} (isGood : good r) :
    Pairs (Outcome.Pairs (InStep ρ good tables before p)) (absorb setup p left right r state)
      (Elimination.absorb other (ρ.onPredicate p) (left.renumber ρ) (right.renumber ρ)
        (r.renumber ρ) others) := by
  obtain ⟨collects, isCollects⟩ : ∃ collects, state.findings.collects p = collects := ⟨_, rfl⟩
  have sameCollects := (corresponds.collects inStep.tables p).trans isCollects
  have renumbered := (inStep.record left right (left.renumber ρ) (right.renumber ρ) r
    (r.renumber ρ)).place r (r.fate p collects) (p := p)
  have placed : (state.withResolvent p collects left right r).InStep ρ good tables before p _ :=
    { toRenumbers := renumbered
      tables := by
        unfold withResolvent
        cases r.fate p collects <;> exact inStep.tables
      side := fun sign c mem => by
        rcases mem_side_withResolvent.mp mem with old | ⟨rfl, -⟩
        · exact inStep.side sign c old
        · exact isGood
      inKept := fun c mem => by
        rcases mem_kept_withResolvent.mp mem with old | ⟨rfl, -⟩
        · exact inStep.inKept c old
        · exact isGood }
  have sameCap := congrArg (setup.config.maxResolutions ≤ ·) renumbered.resolutions
  simp only [Elimination.absorb, isCollects, sameCollects, Clause.fate_renumber, corresponds.mode,
    corresponds.maxResolutions, sameCap]
  refine Pairs.skip (Pairs.skip ?_)
  split
  · exact Pairs.pure (.halted trivial placed)
  · split
    · exact Pairs.skip (Pairs.pure (.halted trivial { placed with
        findings := { placed.findings with truncated := rfl } }))
    · exact Pairs.pure (.going placed)

/-- Trying a pair of clauses. -/
theorem tryPair (inStep : state.InStep ρ good tables before p others) {pair : Clause × Clause}
    (leftGood : good pair.1) (rightGood : good pair.2) :
    Pairs (Outcome.Pairs (InStep ρ good tables before p)) (tryPair setup p pair state)
      (Elimination.tryPair other (ρ.onPredicate p)
        (pair.map (Clause.renumber ρ) (Clause.renumber ρ)) others) := by
  intro outcome otherOutcome returned otherReturned
  have resolved := resolve_of_tryPair corresponds.unlimited returned
  have otherResolved := resolve_of_tryPair corresponds.otherUnlimited otherReturned
  have resolvents := inStep.findings.signature.resolvents p pair.1 pair.2
  simp only [Elimination.resolve, returns_bind] at resolved otherResolved resolvents
  obtain ⟨looked, lookedReturned, resolved⟩ := resolved
  obtain ⟨otherLooked, otherLookedReturned, otherResolved⟩ := otherResolved
  obtain ⟨found, otherFound, rfl, rfl, renumbers, newTables⟩ := corresponds.looks leftGood
    inStep.findings inStep.tables _ _ lookedReturned otherLookedReturned
  simp only [Prod.map, resolvents] at otherResolved
  refine forEach_pairs (fun r mem during duringOthers inStep => inStep.absorb corresponds pair.1
    pair.2 (corresponds.resolvent leftGood rightGood mem)) ?_ outcome otherOutcome resolved
    otherResolved
  exact { inStep with
    findings := renumbers
    tables := by simpa [List.append_assoc] using newTables }

/-- All rounds. -/
theorem saturate (inStep : state.InStep ρ good tables before p others) :
    Pairs (Outcome.Pairs (InStep ρ good tables before p)) (saturate setup p state)
      (Elimination.saturate other (ρ.onPredicate p) others) := by
  induction state using saturate.induct setup generalizing others with
  | case1 state ih =>
      rw [Elimination.saturate, Elimination.saturate, inStep.newPairs]
      refine Pairs.bind (forEach_pairs (fun pair mem during duringOthers duringInStep => ?_)
        inStep) ?_
      · obtain ⟨leftIn, rightIn, -⟩ := mem_newPairs.mp mem
        exact duringInStep.tryPair corresponds
          (inStep.side .positive _ (mem_side_iff.mpr (.inl leftIn)))
          (inStep.side .negative _ (mem_side_iff.mpr (.inl rightIn)))
      · rintro _ _ (@⟨after, afterOthers, afterInStep⟩ | ⟨regular, afterInStep⟩)
        · simp only [afterInStep.resolutions, inStep.resolutions, corresponds.maxResolutions]
          split
          · rename_i another
            exact ih after another afterInStep.nextRound
          · exact Pairs.pure (.going afterInStep.nextRound)
        · exact Pairs.pure (.halted regular afterInStep)

end InStep

end Elimination

/-! ## Searches -/

/-- A store has the clauses of another one, renumbered and in the same order. -/
structure Store.Renumbers (ρ : Renumbering) (store renumbered : Store) : Prop where
  indexed : store.IsIndexed
  renumberedIndexed : renumbered.IsIndexed
  clauses : renumbered.clauses = store.clauses.map (Clause.renumber ρ)

namespace Store.Renumbers

variable {store renumbered : Store}

theorem insert (renumbers : store.Renumbers ρ renumbered) (c : Clause) :
    (store.insert c).2.Renumbers ρ (renumbered.insert (c.renumber ρ)).2 where
  indexed := renumbers.indexed.insert c
  renumberedIndexed := renumbers.renumberedIndexed.insert (c.renumber ρ)
  clauses := by
    have mem_iff : c.renumber ρ ∈ store.clauses.map (Clause.renumber ρ) ↔ c ∈ store.clauses := by
      simp
    rw [renumbers.renumberedIndexed.clauses_insert, renumbers.indexed.clauses_insert,
      renumbers.clauses, apply_ite (List.map (Clause.renumber ρ))]
    simp only [mem_iff, List.map_append, List.map_cons, List.map_nil]

theorem insertAll (renumbers : store.Renumbers ρ renumbered) (clauses : List Clause) :
    (store.insertAll clauses).Renumbers ρ
      (renumbered.insertAll (clauses.map (Clause.renumber ρ))) := by
  induction clauses generalizing store renumbered with
  | nil => exact renumbers
  | cons c rest ih => exact ih (renumbers.insert c)

theorem containsEmpty (renumbers : store.Renumbers ρ renumbered) :
    renumbered.containsEmpty = store.containsEmpty := by
  rw [Bool.eq_iff_iff]
  refine renumbers.renumberedIndexed.contains_iff.trans
    (Iff.trans ?_ renumbers.indexed.contains_iff.symm)
  rw [← mem_clauses_iff, ← mem_clauses_iff, renumbers.clauses, ← Clause.renumber_empty ρ]
  exact List.mem_map_of_injective (Clause.embeds_renumber ρ).injective

/-- The buckets of a predicate, and what they leave. -/
theorem takeBucket (renumbers : store.Renumbers ρ renumbered) (p : PredicateSymbol) :
    ∃ bucket rest renumberedRest, store.takeBucket p = .ok (bucket, rest) ∧
      renumbered.takeBucket (ρ.onPredicate p) = .ok (bucket.renumber ρ, renumberedRest) ∧
      rest.Renumbers ρ renumberedRest := by
  obtain ⟨bucket, rest, taken, restIndexed, sides, restClauses⟩ :=
    renumbers.indexed.clauses_takeBucket p
  obtain ⟨renumberedBucket, renumberedRest, renumberedTaken, renumberedIndexed, renumberedSides,
    renumberedClauses⟩ := renumbers.renumberedIndexed.clauses_takeBucket (ρ.onPredicate p)
  have side (sign : Sign) :
      renumberedBucket.side sign = (bucket.side sign).map (Clause.renumber ρ) := by
    rw [renumberedSides, sides, renumbers.clauses, List.filter_map]
    simp only [Function.comp_def, Clause.hasLiteralOn_renumber]
  have sameBucket : renumberedBucket = bucket.renumber ρ :=
    congrArg₂ Bucket.mk (side .positive) (side .negative)
  refine ⟨bucket, rest, renumberedRest, taken, sameBucket ▸ renumberedTaken, restIndexed,
    renumberedIndexed, ?_⟩
  rw [renumberedClauses, restClauses, renumbers.clauses, List.filter_map]
  simp only [Function.comp_def, Clause.mentions_renumber]

end Store.Renumbers

namespace Search

/-- The pairs that were tried in an elimination. -/
def Step.triedPairs (step : Step) : List TriedPair :=
  step.ended.state.tried.toList.map (Prod.mk step.predicate)

/-- Two searches in step, after some pairs were tried. -/
structure InStep (ρ : Renumbering) (good : Clause → Prop)
    (tables : List TriedPair → Table → Table → Prop) (before : List TriedPair)
    (search others : Search) : Prop where
  store : search.store.Renumbers ρ others.store
  findings : search.findings.Renumbers ρ others.findings
  tables : tables before search.findings.table others.findings.table
  good : ∀ c ∈ search.store, good c

variable {search others between : Search} {outcome : Outcome Search} {steps later : List Step}
  {order : List PredicateSymbol}

/-- A search goes on after its first predicate. -/
theorem Goes.goOn (first : Goes setup [p] search steps (.going between))
    (rest : Goes setup order between later outcome) :
    Goes setup (p :: order) search (steps ++ later) outcome := by
  cases first with
  | passedOver taken isEmpty goes =>
      cases goes
      exact .passedOver taken isEmpty rest
  | eliminated taken notEmpty saturates ends goes =>
      cases goes
      exact .eliminated taken notEmpty saturates ends rest

/-- A search stops with its first predicate. -/
theorem Goes.stop {reason : Halt} (first : Goes setup [p] search steps (.halted reason between)) :
    Goes setup (p :: order) search steps (.halted reason between) := by
  cases first with
  | passedOver _ _ goes => cases goes
  | eliminated _ _ _ _ goes => cases goes
  | stopped taken notEmpty saturates notCapped =>
      exact .stopped taken notEmpty saturates notCapped

/-- Two searches go through the same eliminations and are in step at their end. -/
def GoInStep (ρ : Renumbering) (good : Clause → Prop)
    (tables : List TriedPair → Table → Table → Prop) (before : List TriedPair) (setup : Setup)
    (order : List PredicateSymbol) (search : Search) (outcome otherOutcome : Outcome Search) :
    Prop :=
  ∃ steps, Goes setup order search steps outcome ∧
    outcome.Pairs (InStep ρ good tables (before ++ steps.flatMap Step.triedPairs)) otherOutcome

namespace InStep

theorem noted (inStep : search.InStep ρ good tables before others) :
    search.noted.InStep ρ good tables before others.noted := by
  unfold Search.noted
  rw [inStep.store.containsEmpty]
  split
  · exact { inStep with findings := { inStep.findings with refuted := rfl } }
  · exact inStep

variable (corresponds : Corresponds ρ setup other good tables)

include corresponds

/-- Eliminating one predicate. -/
theorem eliminate (inStep : search.InStep ρ good tables before others) (p : PredicateSymbol) :
    Pairs (GoInStep ρ good tables before setup [p] search) (eliminate setup p search)
      (Search.eliminate other (ρ.onPredicate p) others) := by
  intro outcome otherOutcome returned otherReturned
  have consistent := inStep.store.indexed.toConsistent
  obtain ⟨bucket, rest, otherRest, taken, otherTaken, left⟩ := inStep.store.takeBucket p
  obtain ⟨_, _, splits⟩ := consistent.exists_splits p
  cases taken.symm.trans splits.taken
  have restGood (c : Clause) (mem : c ∈ rest) : good c := inStep.good c (splits.mem_rest.mp mem).1
  have eliminated :=
    (eliminates_of_unlimited corresponds.unlimited consistent returned).of_taken taken
  have otherEliminated := (eliminates_of_unlimited corresponds.otherUnlimited
    inStep.store.renumberedIndexed.toConsistent otherReturned).of_taken otherTaken
  have sameTest : (bucket.renumber ρ).isEmpty = bucket.isEmpty := by
    simp [Bucket.isEmpty, Bucket.size, Bucket.renumber]
  rw [sameTest] at otherEliminated
  split at eliminated <;> rename_i isEmpty
  · rw [if_pos isEmpty] at otherEliminated
    subst eliminated otherEliminated
    refine ⟨[], .passedOver taken isEmpty (.done _), .going ⟨left, inStep.findings, ?_, restGood⟩⟩
    simpa using inStep.tables
  · rw [if_neg isEmpty] at otherEliminated
    obtain ⟨ended, ran, rfl⟩ := eliminated
    obtain ⟨otherEnded, otherRan, rfl⟩ := otherEliminated
    have notEmpty := Bool.eq_false_iff.mpr isEmpty
    obtain ⟨trials, saturates⟩ := Elimination.exists_saturates_of_run corresponds.unlimited
      (inStep.store.indexed.of_takeBucket taken).2 ran
    have started : (Elimination.start bucket search.findings).InStep ρ good tables before p
        (Elimination.start (bucket.renumber ρ) others.findings) :=
      ⟨⟨inStep.findings, rfl, rfl, rfl, rfl, rfl⟩,
        by simpa [Elimination.start] using inStep.tables, fun sign c mem =>
          inStep.good c (splits.mem_side.mp (Elimination.mem_side_start.mp mem)).1,
        by simp [Elimination.start]⟩
    have afterwards {state otherState : Elimination} (isLast : ended.state = state)
        (ends : state.InStep ρ good tables before p otherState) :
        InStep ρ good tables (before ++ [Step.mk p trials ended].flatMap Step.triedPairs)
          (after rest state) (Search.after otherRest otherState) := by
      refine ⟨?_, ends.findings, ?_, fun c mem => ?_⟩
      · rw [Search.after, Search.after, ends.kept]
        exact left.insertAll state.kept
      · rw [List.flatMap_singleton, Step.triedPairs, isLast]
        exact ends.tables
      · exact (((left.indexed.toConsistent.insertAll state.kept).2 c).mp mem).elim
          (ends.inKept c) (restGood c)
    have inStepEnded := started.saturate corresponds _ _ (Elimination.saturate_of_run ran)
      (Elimination.saturate_of_run otherRan)
    rcases inStepEnded with ends | @⟨halt, _, _, regular, ends⟩
    · exact ⟨_, .eliminated taken notEmpty saturates trivial (.done _),
        .going (afterwards rfl ends)⟩
    · cases halt with
      | capped =>
          exact ⟨_, .eliminated taken notEmpty saturates rfl (.done _),
            .going (afterwards rfl ends)⟩
      | refuted | gaveUp | failed =>
          exact ⟨_, .stopped taken notEmpty saturates (by simp),
            .halted regular (afterwards rfl ends)⟩

/-- Eliminating the predicates of an order. -/
theorem eliminations (inStep : search.InStep ρ good tables before others) :
    Pairs (GoInStep ρ good tables before setup order search)
      (forEach (Search.eliminate setup) order search)
      (forEach (Search.eliminate other) (order.map ρ.onPredicate) others) := by
  induction order generalizing search others before with
  | nil =>
      refine Pairs.pure ⟨[], .done search, .going ?_⟩
      rwa [List.flatMap_nil, List.append_nil]
  | cons p order ih =>
      refine Pairs.bind (inStep.eliminate corresponds p) ?_
      rintro _ _ ⟨steps, goes, between | ⟨regular, last⟩⟩
      · rintro outcome otherOutcome returned otherReturned
        obtain ⟨later, goesOn, inStep⟩ := ih between outcome otherOutcome returned otherReturned
        refine ⟨steps ++ later, goes.goOn goesOn, ?_⟩
        rwa [List.flatMap_append, ← List.append_assoc]
      · exact Pairs.pure ⟨steps, goes.stop, .halted regular last⟩

/-- Whole searches, whose orders correspond. -/
theorem run {order otherOrder : EliminationOrder}
    (sameOrder : otherOrder.order = order.order.map ρ.onPredicate)
    (inStep : search.InStep ρ good tables [] others) :
    Pairs (fun outcome otherOutcome => ∃ steps, Runs setup order search steps outcome ∧
        outcome.Pairs (InStep ρ good tables (steps.flatMap Step.triedPairs)) otherOutcome)
      (run setup order search) (Search.run other otherOrder others) := by
  intro outcome otherOutcome returned otherReturned
  have ended := of_run returned
  have otherEnded := of_run otherReturned
  rw [inStep.store.containsEmpty, corresponds.mode, sameOrder] at otherEnded
  split at ended <;> rename_i isRefuted
  · rw [if_pos isRefuted] at otherEnded
    subst ended otherEnded
    exact ⟨[], .alreadyRefuted isRefuted.1 isRefuted.2, .halted trivial inStep.noted⟩
  · rw [if_neg isRefuted] at otherEnded
    obtain ⟨steps, goes, pairs⟩ :=
      inStep.noted.eliminations corresponds outcome otherOutcome ended otherEnded
    exact ⟨steps, .goes isRefuted goes, pairs⟩

end InStep

end Search

/-! ## Searches without a query -/

/-- Searches without a query correspond, whenever they start. -/
theorem corresponds_of_unlimited (ρ : Renumbering) (unlimited : setup.config.limits = .unlimited)
    (time : Duration) :
    Corresponds ρ setup { setup with start := time } (fun _ => True)
      fun _ table other => table.2 = none ∧ other.2 = none where
  mode := rfl
  maxResolutions := rfl
  unlimited := unlimited
  otherUnlimited := unlimited
  resolvent _ _ _ := trivial
  collects {_ findings others} absent _ := by
    have noAnswers : findings.answers = none := absent.1
    have noOthers : others.answers = none := absent.2
    simp [Findings.collects, noAnswers, noOthers]
  looks {p c d _ state others} _ renumbers absent := by
    intro ended otherEnded returned otherReturned
    obtain rfl := Findings.eq_of_noQuery (by exact absent.1) returned
    obtain rfl := Findings.eq_of_noQuery (by exact absent.2) otherReturned
    exact ⟨_, _, rfl, rfl, { renumbers with
      signature := (renumbers.signature.renameApart c d).2.2 }, absent⟩

/-- Two searches without limits that look for no answers, whose clauses, canonical
variables and orders correspond, end with the same status. -/
theorem Store.Renumbers.refute {store renumbered : Store} (renumbers : store.Renumbers ρ renumbered)
    {signature renumberedSignature : Signature} (follows : signature.Follows ρ renumberedSignature)
    (unlimited : setup.config.limits = .unlimited) {order renumberedOrder : EliminationOrder}
    (sameOrder : renumberedOrder.order = order.order.map ρ.onPredicate) {time : Duration} :
    Pairs (fun first second => first.1.map Refutation.status = second.1.map Refutation.status)
      (store.refute setup order none signature)
      (renumbered.refute { setup with start := time } renumberedOrder none
        renumberedSignature) := by
  have started : (Search.start setup store none signature).InStep ρ (fun _ => True)
      (fun _ table other => table.2 = none ∧ other.2 = none) []
      (Search.start { setup with start := time } renumbered none renumberedSignature) :=
    ⟨renumbers, ⟨follows, rfl, rfl, rfl⟩, ⟨rfl, rfl⟩, fun _ _ => trivial⟩
  refine (started.run (corresponds_of_unlimited ρ unlimited time) sameOrder).bind ?_
  rintro _ _ ⟨steps, -, ended | @⟨halt, _, _, -, -⟩⟩
  · refine Pairs.pure ?_
    simp [Search.result, Search.finish, Except.map, ended.findings.refuted]
  · cases halt with
    | refuted | capped | gaveUp | failed => exact Pairs.pure rfl

end Entailment.FirstOrder
