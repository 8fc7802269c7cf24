import Entailment.Proofs.FirstOrder.ResolventSoundness
import Entailment.Proofs.FirstOrder.SearchSteps

/-!
# Invariants of an elimination

A guarantee says what is to hold of the clauses in the bucket, of the resolvents
that are kept, of the answers, and of a run that derives the empty clause.  An
elimination maintains a guarantee that every resolvent and every answer of two
clauses of the bucket meets.  So what one resolution step keeps is kept by an
elimination, and by the search that goes from predicate to predicate.

Nothing depends on the limits, on the cap or on what the clock and the memory
gauge say: these only decide how early an elimination ends.
-/

namespace Entailment.FirstOrder

open Monitored

variable {findings : Findings}

/-- What is to hold of the findings of a search: of the answers, over the
signature of the moment, and what the empty clause shows. -/
structure Promise where
  answer : Signature → List String → Prop
  refuted : Prop

/-- What is to hold of the clauses of a bucket and of the clauses that are kept
as well, each over the signature of the moment. -/
structure Guarantee extends Promise where
  bucket : Signature → Clause → Prop
  kept : Signature → Clause → Prop

/-- What a fate says about a resolvent. -/
theorem Clause.fate_spec (p : PredicateSymbol) (collects : Bool) (c : Clause) :
    match c.fate p collects with
    | .refutation => c = .empty
    | .tautology => c.isTautology = true
    | .disjunctiveAnswer => collects = true ∧ c.mentions p = true
    | .returned => collects = false ∧ c.mentions p = true
    | .kept => c.mentions p = false ∧ c.isTautology = false ∧ c ≠ .empty := by
  unfold Clause.fate
  by_cases isEmpty : c.isEmpty = true
  · simp only [isEmpty, if_true]
    obtain ⟨literals⟩ := c
    exact congrArg Clause.mk (List.isEmpty_iff.mp isEmpty)
  · by_cases isTautology : c.isTautology = true
    · simp [isEmpty, isTautology]
    · by_cases mentioned : c.mentions p = true
      · cases collects <;> simp [isEmpty, isTautology, mentioned]
      · have notEmpty : c ≠ .empty := fun isIt => isEmpty (isIt ▸ rfl)
        simp [isEmpty, isTautology, mentioned, notEmpty]

/-- What is to hold of a resolvent with a fate. -/
def Guarantee.Allows (guarantee : Guarantee) (signature : Signature) (r : Clause) : Fate → Prop
  | .refutation => guarantee.refuted
  | .returned => guarantee.bucket signature r
  | .kept => guarantee.kept signature r
  | .tautology | .disjunctiveAnswer => True

/-- What a query collects: the predicate and the names of the variables. -/
abbrev AnswerQuery.heading (query : AnswerQuery) : PredicateSymbol × List String :=
  (query.predicate, query.answers.vars)

/-- The findings of a search that started with a signature and a query. -/
structure Findings.Meets (promise : Promise) (base : Signature)
    (heading : Option (PredicateSymbol × List String)) (findings : Findings) : Prop where
  gains : base.GainsVariables findings.signature
  hasCanonical : findings.signature.HasCanonical
  heading : findings.answers.map AnswerQuery.heading = heading
  answers : ∀ query ∈ findings.answers, ∀ tuple ∈ query.answers.tuples,
    promise.answer findings.signature tuple
  refuted : findings.refuted = true → promise.refuted

/-- Whether a predicate collects answers for a query with a heading. -/
def collectsFor (heading : Option (PredicateSymbol × List String)) (p : PredicateSymbol) : Bool :=
  heading.any fun entry => decide (entry.1 = p)

theorem Findings.collects_eq {heading : Option (PredicateSymbol × List String)}
    (isHeading : findings.answers.map AnswerQuery.heading = heading) (p : PredicateSymbol) :
    findings.collects p = collectsFor heading p := by
  rw [← isHeading, Findings.collects, collectsFor]
  cases findings.answers <;> rfl

theorem Findings.Meets.collects {promise : Promise} {base : Signature}
    {heading : Option (PredicateSymbol × List String)} (meets : findings.Meets promise base heading)
    (p : PredicateSymbol) : findings.collects p = collectsFor heading p :=
  collects_eq meets.heading p

/-- A guarantee that is maintained by resolving the clauses of a bucket on a
predicate. -/
structure Guarantee.Maintained (guarantee : Guarantee) (filter : AnswerFilter)
    (p : PredicateSymbol) (collects : Bool) : Prop where
  bucketGrows : ∀ {signature extended c}, signature.GrowsTo extended →
    guarantee.bucket signature c → guarantee.bucket extended c
  keptGrows : ∀ {signature extended c}, signature.GrowsTo extended →
    guarantee.kept signature c → guarantee.kept extended c
  answerGrows : ∀ {signature extended tuple}, signature.GrowsTo extended →
    guarantee.answer signature tuple → guarantee.answer extended tuple
  bucketOver : ∀ {signature c}, guarantee.bucket signature c → c.IsOver signature
  resolvent : ∀ {signature extended c d left right r},
    RenamedApart c d signature left right extended →
    guarantee.bucket signature c → guarantee.bucket signature d →
    r ∈ Attempt.resolvents extended (left.attempts p right) →
    guarantee.Allows extended r (r.fate p collects)
  answered : ∀ {signature extended c d left right attempt tuple},
    RenamedApart c d signature left right extended →
    guarantee.bucket signature c → guarantee.bucket signature d → collects = true →
    attempt ∈ left.attempts p right → attempt.isRefutation = true →
    attempt.tuple? = some tuple → filter.accepts tuple = true →
    guarantee.answer extended (tuple.map extended.renderTerm)

/-- A halt at a refutation is a refutation. -/
def Promise.Explains (promise : Promise) (halt : Halt) : Prop :=
  halt = .refuted → promise.refuted

theorem Promise.explains_of_ne {promise : Promise} {halt : Halt} (different : halt ≠ .refuted) :
    promise.Explains halt :=
  fun isRefuted => absurd isRefuted different

variable {promise : Promise} {guarantee : Guarantee} {base : Signature}
  {heading : Option (PredicateSymbol × List String)} {p : PredicateSymbol} {setup : Setup}

/-! ## Answers -/

/-- Looking at an attempt changes the answers only, and keeps to the promise if the answer it may
give does. -/
theorem Findings.Meets.takeAttempt {filter : AnswerFilter} {attempt : Attempt}
    {outcome : Outcome Findings} (meets : findings.Meets promise base heading)
    (good : collectsFor heading p = true → attempt.isRefutation = true → ∀ tuple, attempt.tuple? =
      some tuple → filter.accepts tuple = true → promise.answer findings.signature (tuple.map
      findings.signature.renderTerm))
    (returned : (findings.takeAttempt filter p attempt).Returns outcome) :
    outcome.Keeps (fun after => after.Meets promise base heading ∧
      after.signature = findings.signature) promise.Explains := by
  rcases takeAttempt_cases returned with
    ⟨rfl, -⟩ | ⟨query, tuple, gives, ⟨-, rfl⟩ | ⟨-, error, rfl⟩⟩
  · exact ⟨meets, rfl⟩
  · have collects : collectsFor heading p = true := by
      rw [← meets.collects, Findings.collects, gives.current]
      simpa using gives.onPredicate
    refine ⟨{ meets with heading := ?_, answers := ?_ }, rfl⟩
    · rw [← meets.heading, gives.current]
      rfl
    · rintro _ ⟨⟩ printed mem
      rcases Sorted.mem_insert.mp mem with rfl | old
      · exact good collects gives.isRefutation tuple gives.isTuple gives.accepted
      · exact meets.answers query gives.current printed old
  · exact ⟨promise.explains_of_ne nofun, meets, rfl⟩

/-! ## One elimination -/

/-- The state of an elimination that keeps to a guarantee. -/
structure Elimination.Meets (guarantee : Guarantee) (base : Signature)
    (heading : Option (PredicateSymbol × List String)) (state : Elimination) : Prop where
  findings : state.findings.Meets guarantee.toPromise base heading
  settled : ∀ c, c ∈ state.settled.positive ∨ c ∈ state.settled.negative →
    guarantee.bucket state.findings.signature c
  fresh : ∀ c, c ∈ state.fresh.positive ∨ c ∈ state.fresh.negative →
    guarantee.bucket state.findings.signature c
  added : ∀ c, c ∈ state.added.positive ∨ c ∈ state.added.negative →
    guarantee.bucket state.findings.signature c
  kept : ∀ c ∈ state.kept, guarantee.kept state.findings.signature c

theorem mem_appendNew {others clauses : List Clause} {c d : Clause}
    (mem : d ∈ appendNew others clauses c) : d ∈ clauses ∨ d = c := by
  unfold appendNew at mem
  split at mem
  · exact .inl mem
  · simpa using mem

namespace Elimination

variable {state : Elimination} {r left right : Clause}

/-- New findings over a grown signature, with the same clauses. -/
theorem Meets.withFindings {filter : AnswerFilter} {collects : Bool}
    (maintained : guarantee.Maintained filter p collects)
    (meets : state.Meets guarantee base heading)
    (grows : state.findings.signature.GrowsTo findings.signature)
    (good : findings.Meets guarantee.toPromise base heading) :
    Elimination.Meets guarantee base heading { state with findings := findings } where
  findings := good
  settled c mem := maintained.bucketGrows grows (meets.settled c mem)
  fresh c mem := maintained.bucketGrows grows (meets.fresh c mem)
  added c mem := maintained.bucketGrows grows (meets.added c mem)
  kept c mem := maintained.keptGrows grows (meets.kept c mem)

theorem Meets.enqueue (meets : state.Meets guarantee base heading)
    (good : guarantee.bucket state.findings.signature r) :
    (state.enqueue p r).Meets guarantee base heading := by
  constructor
  · exact meets.findings
  · exact meets.settled
  · exact meets.fresh
  · intro c mem
    simp only [Elimination.enqueue] at mem
    have joined : (c ∈ state.added.positive ∨ c ∈ state.added.negative) ∨ c = r := by
      rcases mem with mem | mem
      · split at mem
        · exact (mem_appendNew mem).imp_left .inl
        · exact .inl (.inl mem)
      · split at mem
        · exact (mem_appendNew mem).imp_left .inr
        · exact .inl (.inr mem)
    rcases joined with old | rfl
    · exact meets.added c old
    · exact good
  · exact meets.kept

/-- Counting a resolvent changes nothing that a guarantee speaks of. -/
theorem Meets.record (meets : state.Meets guarantee base heading) :
    (state.record left right r).Meets guarantee base heading :=
  { meets with findings := { meets.findings with } }

/-- A resolvent that keeps to the guarantee is put where its fate says. -/
theorem Meets.place {fate : Fate} (meets : state.Meets guarantee base heading)
    (good : guarantee.Allows state.findings.signature r fate) :
    (state.place p r fate).Meets guarantee base heading := by
  cases fate with
  | refutation => exact { meets with findings := { meets.findings with refuted := fun _ => good } }
  | tautology | disjunctiveAnswer => exact meets
  | returned => exact meets.enqueue good
  | kept =>
      refine { meets with kept := fun c mem => ?_ }
      rcases mem_appendNew mem with old | rfl
      · exact meets.kept c old
      · exact good

theorem signature_withResolvent {collects : Bool} :
    (state.withResolvent p collects left right r).findings.signature =
      state.findings.signature := by
  unfold withResolvent
  cases r.fate p collects <;> rfl

/-- Taking a resolvent that keeps to the guarantee. -/
theorem Meets.absorb {outcome : Outcome Elimination} (meets : state.Meets guarantee base heading)
    (good : guarantee.Allows state.findings.signature r (r.fate p (collectsFor heading p)))
    (returned : (absorb setup p left right r state).Returns outcome) :
    outcome.Keeps (fun after => after.Meets guarantee base heading ∧
      after.findings.signature = state.findings.signature) guarantee.Explains := by
  have placed : (state.withResolvent p (collectsFor heading p) left right r).Meets guarantee base
      heading := meets.record.place good
  rcases absorb_cases (meets.findings.collects p) returned with ⟨rfl, -, fate⟩ | ⟨rfl, -⟩ | ⟨rfl, -⟩
  · rw [fate] at good
    exact ⟨fun _ => good, placed, signature_withResolvent⟩
  · exact ⟨guarantee.explains_of_ne nofun, { placed with findings := { placed.findings with } },
      signature_withResolvent⟩
  · exact ⟨placed, signature_withResolvent⟩

section

variable (maintained : guarantee.Maintained setup.config.answerFilter p (collectsFor heading p))
  {state : Elimination} {outcome : Outcome Elimination}

include maintained

/-- Resolving two clauses of the bucket keeps to a guarantee that is maintained. -/
theorem Meets.resolve {c d : Clause} (meets : state.Meets guarantee base heading)
    (cIn : guarantee.bucket state.findings.signature c)
    (dIn : guarantee.bucket state.findings.signature d)
    (returned : (resolve setup p c d state).Returns outcome) :
    outcome.Keeps (Elimination.Meets guarantee base heading) guarantee.Explains := by
  have apart := Clause.renameApart_spec (maintained.bucketOver cIn) (maintained.bucketOver dIn)
    meets.findings.hasCanonical
  generalize copies : c.renameApart d state.findings.signature = renamed at apart
  obtain ⟨left, right, extended⟩ := renamed
  have started : Findings.Meets guarantee.toPromise base heading
      { state.findings with signature := extended } :=
    ⟨meets.findings.gains.trans apart.gains, apart.hasCanonical, meets.findings.heading,
      fun query isIt tuple mem =>
        maintained.answerGrows apart.gains.grows (meets.findings.answers query isIt tuple mem),
      meets.findings.refuted⟩
  have begins (findings : Findings) (kept : findings.Meets guarantee.toPromise base heading ∧
      findings.signature = extended) :
      Elimination.Meets guarantee base heading { state with findings := findings } ∧
        findings.signature = extended := by
    obtain ⟨findingsMeet, rfl⟩ := kept
    exact ⟨meets.withFindings maintained apart.gains.grows findingsMeet, rfl⟩
  have ended : outcome.Keeps (fun after => after.Meets guarantee base heading ∧
      after.findings.signature = extended) guarantee.Explains := by
    refine resolve_ends (fun findings => findings.Meets guarantee.toPromise base heading ∧
      findings.signature = extended) copies (fun attempt mem findings outcome kept taken => ?_)
      ⟨started, rfl⟩ begins (fun r mem during outcome kept taken => ?_) returned
    · obtain ⟨findingsMeet, rfl⟩ := kept
      have took := findingsMeet.takeAttempt (fun collects isRefutation tuple tupleFound accepted =>
        maintained.answered apart cIn dIn collects mem isRefutation tupleFound accepted) taken
      cases outcome with
      | going after => exact took
      | halted halt after => exact ⟨took.1, begins after took.2⟩
    · obtain ⟨duringMeets, rfl⟩ := kept
      exact duringMeets.absorb (maintained.resolvent apart cIn dIn mem) taken
  exact ended.imp And.left

/-- Trying a pair of clauses of the bucket. -/
theorem Meets.tryPair {pair : Clause × Clause} (meets : state.Meets guarantee base heading)
    (leftIn : guarantee.bucket state.findings.signature pair.1)
    (rightIn : guarantee.bucket state.findings.signature pair.2)
    (returned : (tryPair setup p pair state).Returns outcome) :
    outcome.Keeps (Elimination.Meets guarantee base heading) guarantee.Explains := by
  rcases tryPair_cases returned with ⟨reason, rfl⟩ | returned
  · exact ⟨guarantee.explains_of_ne nofun, meets⟩
  · have noted : Elimination.Meets guarantee base heading
        { state with tried := state.tried.push pair } := { meets with }
    exact noted.resolve maintained leftIn rightIn returned

end

theorem Meets.nextRound (meets : state.Meets guarantee base heading) :
    state.nextRound.Meets guarantee base heading := by
  constructor
  · exact meets.findings
  · intro c mem
    simp only [Elimination.nextRound, bucket, Bucket.append, List.mem_append] at mem
    rcases mem with (old | isFresh) | (old | isFresh)
    · exact meets.settled c (.inl old)
    · exact meets.fresh c (.inl isFresh)
    · exact meets.settled c (.inr old)
    · exact meets.fresh c (.inr isFresh)
  · exact meets.added
  · intro c mem
    simp [Elimination.nextRound, Bucket.empty] at mem
  · exact meets.kept

/-- The same state, seen from its own signature or from an earlier one. -/
theorem Meets.rebase {state : Elimination} {other : Signature}
    (meets : state.Meets guarantee base heading)
    (gains : other.GainsVariables state.findings.signature) :
    state.Meets guarantee other heading :=
  { meets with findings := { meets.findings with gains := gains } }

theorem meets_start {bucket : Bucket} (meets : findings.Meets guarantee.toPromise base heading)
    (inBucket : ∀ c, c ∈ bucket.positive ∨ c ∈ bucket.negative → guarantee.bucket findings.signature
      c) : (start bucket findings).Meets guarantee base heading := by
  constructor
  · exact meets
  · simp [start, Bucket.empty]
  · exact inBucket
  · simp [start, Bucket.empty]
  · simp [start]

/-- An elimination keeps to a guarantee, and gains variables. -/
theorem preserves_meets
    (maintained : guarantee.Maintained setup.config.answerFilter p (collectsFor heading p)) :
    Preserves setup p (Meets guarantee base heading)
      (fun findings => guarantee.bucket findings.signature)
      (fun findings after => findings.signature.GainsVariables after.signature)
      guarantee.Explains where
  refl _ := .refl _
  trans := .trans
  mono gains := maintained.bucketGrows gains.grows
  clauses meets := meets.nextRound.settled
  nextRound := Meets.nextRound
  step {_ state outcome} meets leftIn rightIn returned := by
    -- Seen from the signature of before, the state says what the signature has gained.
    have kept := (meets.rebase (.refl _)).tryPair maintained leftIn rightIn returned
    have back {after : Elimination}
        (good : after.Meets guarantee state.findings.signature heading) :
        after.Meets guarantee base heading ∧
          state.findings.signature.GainsVariables after.findings.signature :=
      ⟨good.rebase (meets.findings.gains.trans good.findings.gains), good.findings.gains⟩
    cases outcome with
    | going after => exact back kept
    | halted halt after => exact ⟨kept.1, back kept.2⟩

end Elimination

/-! ## A search -/

/-- The state of a search whose store is consistent, whose clauses have a property
and whose findings keep to a promise. -/
structure Search.Meets (property : Signature → Clause → Prop) (promise : Promise)
    (base : Signature) (heading : Option (PredicateSymbol × List String)) (search : Search) :
    Prop where
  consistent : search.store.Consistent
  findings : search.findings.Meets promise base heading
  clauses : ∀ c ∈ search.store, property search.findings.signature c

/-- A search that is halted has findings that keep to the promise.  A halt at a
refutation is a refutation, and a search is not halted at the cap. -/
def Search.HaltedWith (promise : Promise) (base : Signature)
    (heading : Option (PredicateSymbol × List String)) (halt : Halt) (search : Search) : Prop :=
  promise.Explains halt ∧ halt ≠ .capped ∧ search.findings.Meets promise base heading

/-- The clauses that mention a predicate become clauses of the bucket. -/
theorem Search.Meets.start {property : Signature → Clause → Prop} {search : Search}
    {bucket : Bucket} {rest : Store}
    (meets : search.Meets property guarantee.toPromise base heading)
    (enters : ∀ {signature c}, property signature c → c.mentions p = true →
      guarantee.bucket signature c)
    (splits : search.store.Splits p bucket rest) :
    (Elimination.start bucket search.findings).Meets guarantee base heading :=
  Elimination.meets_start meets.findings fun c mem =>
    enters (meets.clauses c (splits.of_mem_bucket mem).1) (splits.of_mem_bucket mem).2

/-- Eliminating a predicate.  What is left has the property of the clauses that are
kept. -/
theorem Search.Meets.eliminate {property : Signature → Clause → Prop}
    (maintained : guarantee.Maintained setup.config.answerFilter p (collectsFor heading p))
    (enters : ∀ {signature c}, property signature c → c.mentions p = true →
      guarantee.bucket signature c)
    (stays : ∀ {signature c}, property signature c → c.mentions p = false →
      guarantee.kept signature c)
    {search : Search} {outcome : Outcome Search}
    (meets : search.Meets property guarantee.toPromise base heading)
    (returned : (Search.eliminate setup p search).Returns outcome) :
    outcome.Ends (Search.Meets guarantee.kept guarantee.toPromise base heading)
      (Search.HaltedWith guarantee.toPromise base heading) := by
  have restKept {bucket : Bucket} {rest : Store} (splits : search.store.Splits p bucket rest)
      (c : Clause) (mem : c ∈ rest) : guarantee.kept search.findings.signature c :=
    stays (meets.clauses c (splits.mem_rest.mp mem).1) (splits.mem_rest.mp mem).2
  rcases eliminate_cases meets.consistent returned with
    ⟨reason, -, rfl⟩ | ⟨splits, -⟩ | @⟨bucket, rest, ended, splits, -, ran⟩
  · exact ⟨guarantee.explains_of_ne nofun, nofun, meets.findings⟩
  · exact ⟨splits.consistent, meets.findings, restKept splits⟩
  · have kept := (Elimination.preserves_meets maintained).run (meets.start enters splits) ran
    have afterwards {state : Elimination} (good : state.Meets guarantee base heading)
        (gains : search.findings.signature.GainsVariables state.findings.signature) :
        (Search.after rest state).Meets guarantee.kept guarantee.toPromise base heading := by
      obtain ⟨consistent, mem_iff⟩ := splits.consistent.insertAll state.kept
      refine ⟨consistent, good.findings, fun c mem => ?_⟩
      rcases (mem_iff c).mp mem with isKept | old
      · exact good.kept c isKept
      · exact maintained.keptGrows gains.grows (restKept splits c old)
    refine goOn_ends ?_
    cases ended with
    | going state => exact afterwards kept.1 kept.2
    | halted halt state =>
        exact ⟨fun _ => afterwards kept.2.1 kept.2.2,
          fun notCapped => ⟨kept.1, notCapped, kept.2.1.findings⟩⟩

end Entailment.FirstOrder
