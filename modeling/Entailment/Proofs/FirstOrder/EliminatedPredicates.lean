import Entailment.Proofs.FirstOrder.AnswerTies
import Entailment.Proofs.FirstOrder.Saturation
import Entailment.Proofs.FirstOrder.StoreOperations

/-!
# Eliminated predicates never come back

A search processes the predicates of its order one after the other: it takes the bucket of a
predicate out of its store and inserts the clauses that were kept instead.  A clause that is kept
is neither empty nor a tautology.  It does not mention the predicate, and every predicate that it
does mention is mentioned in the store already, because a resolvent mentions only the predicates
of the two clauses.  So once a predicate has been processed, no clause mentions it any more, at
whatever point the search is, and whatever halts it later.

If all predicates of a store have been processed, nothing is left but the empty clause, and only
if the store had it from the start.
-/

namespace Entailment.FirstOrder

open Monitored

variable {setup : Setup} {p : PredicateSymbol} {c d r : Clause}

/-- A clause that mentions no predicate is empty. -/
theorem Clause.eq_empty_of_not_mentions (nothing : ∀ p, c.mentions p = false) : c = .empty := by
  obtain ⟨literals⟩ := c
  cases literals with
  | nil => rfl
  | cons literal rest => simpa [mentions] using nothing literal.atom.predicate

/-! ## One elimination -/

namespace Elimination

/-- The state of an elimination of `p` in which only some predicates are mentioned, and in which
no clause is kept that mentions `p`, is a tautology or is empty. -/
structure Confines (allowed : PredicateSymbol → Prop) (p : PredicateSymbol) (state : Elimination) :
    Prop where
  side : ∀ sign, ∀ c ∈ state.side sign, ∀ q, c.mentions q = true → allowed q
  kept : ∀ c ∈ state.kept, (∀ q, c.mentions q = true → allowed q) ∧
    c.mentions p = false ∧ c.isTautology = false ∧ c ≠ .empty

variable {allowed : PredicateSymbol → Prop} {state : Elimination} {outcome : Outcome Elimination}

theorem Confines.withResolvent (confines : state.Confines allowed p)
    (rAllowed : ∀ q, r.mentions q = true → allowed q) (collects : Bool) :
    (state.withResolvent p collects c d r).Confines allowed p := by
  refine ⟨fun sign e mem => ?_, fun e mem => ?_⟩
  · rcases mem_side_withResolvent.mp mem with old | ⟨rfl, -⟩
    · exact confines.side sign e old
    · exact rAllowed
  · rcases mem_kept_withResolvent.mp mem with old | ⟨rfl, isKept⟩
    · exact confines.kept e old
    · have fateSpec := e.fate_spec p collects
      rw [isKept] at fateSpec
      exact ⟨rAllowed, fateSpec⟩

/-- Resolving two clauses brings no other predicates in. -/
theorem Confines.resolve (confines : state.Confines allowed p)
    (cAllowed : ∀ q, c.mentions q = true → allowed q)
    (dAllowed : ∀ q, d.mentions q = true → allowed q)
    (returned : (resolve setup p c d state).Returns outcome) :
    outcome.Keeps (Confines allowed p) fun _ => True := by
  have same (findings : Findings) : Confines allowed p { state with findings := findings } :=
    ⟨confines.side, confines.kept⟩
  refine resolve_ends (fun _ => True) rfl (fun _ _ _ outcome _ _ => ?_) trivial
    (fun findings _ => same findings) (fun r mem during outcome soFar taken => ?_) returned
  · cases outcome with
    | going findings => trivial
    | halted halt findings => exact ⟨trivial, same findings⟩
  · have rAllowed (q : PredicateSymbol) (mentioned : r.mentions q = true) : allowed q :=
      (Attempt.mentions_of_mem_resolvents (Clause.isVariantOf_renameFrom ..)
        (Clause.isVariantOf_renameFrom ..) mem mentioned).elim (cAllowed q) (dAllowed q)
    have placed := @Confines.withResolvent p c d r allowed during soFar rAllowed
      (during.findings.collects p)
    rcases absorb_cases rfl taken with ⟨rfl, -⟩ | ⟨rfl, -⟩ | ⟨rfl, -⟩
    · exact ⟨trivial, placed⟩
    · exact ⟨trivial, placed.side, placed.kept⟩
    · exact placed

/-- Eliminating a predicate brings no other predicates in. -/
theorem preserves_confines (allowed : PredicateSymbol → Prop) :
    Preserves setup p (Confines allowed p) (fun _ c => ∀ q, c.mentions q = true → allowed q)
      (fun _ _ => True) fun _ => True where
  refl _ := trivial
  trans _ _ := trivial
  mono _ := id
  clauses confines c mem := mem.elim
    (fun mem => confines.side .positive c (mem_side_iff.mpr (.inl mem)))
    fun mem => confines.side .negative c (mem_side_iff.mpr (.inl mem))
  nextRound confines :=
    ⟨fun sign c mem => confines.side sign c (mem_side_nextRound.mp mem), confines.kept⟩
  step {pair state outcome} confines leftAllowed rightAllowed returned := by
    rcases tryPair_cases returned with ⟨reason, rfl⟩ | returned
    · exact ⟨trivial, confines, trivial⟩
    have noted : Confines allowed p { state with tried := state.tried.push pair } :=
      ⟨confines.side, confines.kept⟩
    have kept := noted.resolve leftAllowed rightAllowed returned
    cases outcome with
    | going after => exact ⟨kept, trivial⟩
    | halted halt after => exact ⟨trivial, kept.2, trivial⟩

theorem confines_of_run {bucket : Bucket} {findings : Findings}
    (inBucket : ∀ sign, ∀ c ∈ bucket.side sign, ∀ q, c.mentions q = true → allowed q)
    (returned : (run setup p bucket findings).Returns outcome) :
    outcome.state.Confines allowed p := by
  have started : (start bucket findings).Confines allowed p :=
    ⟨fun sign c mem => inBucket sign c (mem_side_start.mp mem), List.forall_mem_nil _⟩
  have kept := (preserves_confines allowed).run started returned
  cases outcome with
  | going state => exact kept.1
  | halted halt state => exact kept.2.1

end Elimination

/-! ## The stages of a search -/

namespace Search

/-- A predicate that a search has processed, with the clauses that were inserted in place of its
bucket. -/
structure Stage where
  predicate : PredicateSymbol
  inserted : List Clause

/-- What is done to the store in a stage. -/
def Stage.operations (stage : Stage) : List Store.Operation :=
  .takeBucket stage.predicate :: stage.inserted.map .insert

/-- A stage of a search, in which a predicate is passed over or eliminated. -/
inductive Processes (setup : Setup) : Stage → Search → Outcome Search → Prop
  | passedOver {p : PredicateSymbol} {search : Search} {bucket : Bucket} {rest : Store}
      (splits : search.store.Splits p bucket rest) (isEmpty : bucket.isEmpty = true) :
      Processes setup ⟨p, []⟩ search (.going ⟨rest, search.findings⟩)
  | eliminated {p : PredicateSymbol} {search : Search} {bucket : Bucket} {rest : Store}
      {ended : Outcome Elimination} (splits : search.store.Splits p bucket rest)
      (notEmpty : bucket.isEmpty = false)
      (returned : (Elimination.run setup p bucket search.findings).Returns ended) :
      Processes setup ⟨p, ended.state.kept⟩ search (goOn rest ended)

/-- How far a search has come after some stages.  It may have been halted before the first one,
between two of them, or in the last one. -/
inductive Reaches (setup : Setup) (search : Search) : List Stage → Outcome Search → Prop
  | start : Reaches setup search [] (.going search.noted)
  | refuted (hasEmpty : search.store.containsEmpty = true) (single : setup.mode = .single) :
      Reaches setup search [] (.halted .refuted search.noted)
  | gaveUp {stages : List Stage} {during : Search} {reason : GiveUp}
      (reaches : Reaches setup search stages (.going during)) :
      Reaches setup search stages (.halted (.gaveUp reason) during)
  | processed {stages : List Stage} {stage : Stage} {during : Search} {outcome : Outcome Search}
      (reaches : Reaches setup search stages (.going during))
      (processes : Processes setup stage during outcome) :
      Reaches setup search (stages ++ [stage]) outcome

variable {stage : Stage} {stages : List Stage} {search : Search} {outcome : Outcome Search}

/-- A stage carries out its operations. -/
theorem Processes.store_eq (processes : Processes setup stage search outcome) :
    outcome.state.store = search.store.performAll stage.operations := by
  have afterBucket {p : PredicateSymbol} {bucket : Bucket} {rest : Store} (clauses : List Clause)
      (splits : search.store.Splits p bucket rest) :
      search.store.performAll (.takeBucket p :: clauses.map .insert) = rest.insertAll clauses := by
    have taken := splits.taken
    rw [← Store.committed_takeBucketInPlace, committed_eq_ok_iff] at taken
    rw [Store.performAll, List.foldl_cons, Store.perform, taken, List.foldl_map]
    rfl
  cases processes with
  | passedOver splits isEmpty => exact (afterBucket [] splits).symm
  | eliminated splits notEmpty returned => rw [state_goOn]; exact (afterBucket _ splits).symm

/-- The clauses after a stage: the bucket is gone, and what was inserted is there. -/
theorem Processes.mem_iff (processes : Processes setup stage search outcome) {c : Clause} :
    c ∈ outcome.state.store ↔
      (c ∈ search.store ∧ c.mentions stage.predicate = false) ∨ c ∈ stage.inserted := by
  cases processes with
  | passedOver splits isEmpty => exact splits.mem_rest.trans (or_iff_left List.not_mem_nil).symm
  | eliminated splits notEmpty returned =>
      rw [state_goOn, or_comm, ← splits.mem_rest]
      exact (splits.consistent.insertAll _).2 c

/-- A clause that is inserted in a stage mentions some predicates that were mentioned before and
not the one that is processed, and it is neither empty nor a tautology. -/
theorem Processes.of_mem_inserted (processes : Processes setup stage search outcome) {c : Clause}
    (mem : c ∈ stage.inserted) :
    (∀ q, c.mentions q = true → ∃ d ∈ search.store, d.mentions q = true) ∧
      c.mentions stage.predicate = false ∧ c.isTautology = false ∧ c ≠ .empty := by
  cases processes with
  | passedOver splits isEmpty => cases mem
  | eliminated splits notEmpty returned =>
      have inStore (sign : Sign) (d : Clause) (inBucket : d ∈ Bucket.side sign _)
          (q : PredicateSymbol) (mentioned : d.mentions q = true) :
          ∃ d ∈ search.store, d.mentions q = true :=
        ⟨d, (splits.mem_side.mp inBucket).1, mentioned⟩
      exact (Elimination.confines_of_run inStore returned).kept c mem

/-! ## All stages -/

/-- What holds after some stages.  The store is the one after their operations, and at the end of
each of them no clause mentions a predicate that has been processed.  No clause that was inserted
is a tautology or empty, and all predicates that are mentioned were mentioned at the start. -/
structure Clears (search : Search) (stages : List Stage) (outcome : Outcome Search) : Prop where
  store : outcome.state.store = search.store.performAll (stages.flatMap Stage.operations)
  cleared : ∀ done, done <+: stages →
    ∀ c ∈ search.store.performAll (done.flatMap Stage.operations),
      ∀ p ∈ done.map Stage.predicate, c.mentions p = false
  inserted : ∀ stage ∈ stages, ∀ c ∈ stage.inserted, c.isTautology = false ∧ c ≠ .empty
  mentioned : ∀ c ∈ outcome.state.store, ∀ q, c.mentions q = true →
    ∃ d ∈ search.store, d.mentions q = true
  empty : .empty ∈ outcome.state.store ↔ .empty ∈ search.store

/-- Before the first stage. -/
theorem clears_nil {outcome : Outcome Search} (same : outcome.state = search.noted) :
    search.Clears [] outcome := by
  have sameStore : outcome.state.store = search.store := by
    rw [same, noted]
    split <;> rfl
  refine ⟨sameStore, fun done part => ?_, nofun, fun c mem q mentioned => ?_, by rw [sameStore]⟩
  · obtain rfl := List.prefix_nil.mp part
    exact fun _ _ _ => nofun
  · exact ⟨c, sameStore ▸ mem, mentioned⟩

/-- One more stage. -/
theorem Clears.processes {during : Search} (clears : search.Clears stages (.going during))
    (processes : Processes setup stage during outcome) :
    search.Clears (stages ++ [stage]) outcome := by
  have store : outcome.state.store =
      search.store.performAll ((stages ++ [stage]).flatMap Stage.operations) := by
    rw [processes.store_eq, List.flatMap_append, Store.performAll_append, List.flatMap_singleton]
    exact congrArg _ clears.store
  have past (d : Clause) (mem : d ∈ during.store) (p : PredicateSymbol)
      (isPast : p ∈ stages.map Stage.predicate) : d.mentions p = false :=
    clears.cleared stages List.prefix_rfl d (clears.store ▸ mem) p isPast
  refine ⟨store, fun done part => ?_, fun other mem => ?_, fun c mem q mentioned => ?_, ?_⟩
  · rcases List.prefix_concat_iff.mp part with rfl | earlier
    · rw [← store]
      intro c mem p isPast
      rw [List.map_append, List.mem_append, List.map_singleton, List.mem_singleton] at isPast
      rcases processes.mem_iff.mp mem with ⟨old, notOnStage⟩ | isNew
      · exact isPast.elim (past c old p) fun isStage => isStage ▸ notOnStage
      · obtain ⟨known, notOnStage, -⟩ := processes.of_mem_inserted isNew
        refine isPast.elim (fun isPast => Bool.eq_false_iff.mpr fun mentioned => ?_)
          fun isStage => isStage ▸ notOnStage
        -- The predicate would have been in the store before.
        obtain ⟨d, dMem, dMentions⟩ := known p mentioned
        cases (past d dMem p isPast).symm.trans dMentions
    · exact clears.cleared done earlier
  · rcases List.mem_append.mp mem with earlier | isStage
    · exact clears.inserted other earlier
    · obtain rfl := List.mem_singleton.mp isStage
      exact fun c isNew => (processes.of_mem_inserted isNew).2.2
  · rcases processes.mem_iff.mp mem with ⟨old, -⟩ | isNew
    · exact clears.mentioned c old q mentioned
    · obtain ⟨d, dMem, dMentions⟩ := (processes.of_mem_inserted isNew).1 q mentioned
      exact clears.mentioned d dMem q dMentions
  · rw [processes.mem_iff, ← clears.empty]
    have notInserted : .empty ∉ stage.inserted :=
      fun mem => (processes.of_mem_inserted mem).2.2.2 rfl
    exact (or_iff_left notInserted).trans (and_iff_left rfl)

/-- A search clears its store of the predicates of its stages. -/
theorem Reaches.clears (reaches : Reaches setup search stages outcome) :
    search.Clears stages outcome := by
  induction reaches with
  | start => exact clears_nil rfl
  | refuted hasEmpty single => exact clears_nil rfl
  | gaveUp _ ih => exact { ih with }
  | processed _ processes ih => exact ih.processes processes

/-- A run of a search goes through the predicates of its order, up to the one that halts it. -/
theorem exists_reaches {order : EliminationOrder} {operations : List Store.Operation}
    (built : search.store = Store.empty.performAll operations)
    (returned : (search.run setup order).Returns outcome) :
    ∃ stages, Reaches setup search stages outcome ∧
      stages.map Stage.predicate <+: order.order ∧
      ∀ final, outcome = .going final → stages.map Stage.predicate = order.order := by
  have ended := of_run returned
  split at ended
  · rename_i isRefuted
    subst ended
    exact ⟨[], .refuted isRefuted.1 isRefuted.2, List.nil_prefix, nofun⟩
  have ends := @forEach_returns _ _ _
    (fun left during => ∃ stages, Reaches setup search stages (.going during) ∧
      stages.map Stage.predicate ++ left = order.order)
    (fun halt during => ∃ stages, Reaches setup search stages (.halted halt during) ∧
      stages.map Stage.predicate <+: order.order)
    (fun p left during outcome ahead eliminated => ?_) _ _ _ ⟨[], .start, rfl⟩ ended
  · cases outcome with
    | going final =>
        obtain ⟨stages, reaches, whole⟩ := ends
        rw [List.append_nil] at whole
        exact ⟨stages, reaches, whole ▸ List.prefix_rfl, fun _ _ => whole⟩
    | halted halt final =>
        obtain ⟨stages, reaches, part⟩ := ends
        exact ⟨stages, reaches, part, nofun⟩
  · obtain ⟨stages, reaches, whole⟩ := ahead
    have store : during.store =
        Store.empty.performAll (operations ++ stages.flatMap Stage.operations) := by
      rw [Store.performAll_append, ← built]
      exact reaches.clears.store
    have consistent : during.store.Consistent :=
      store ▸ (Store.isIndexed_performAll _).toConsistent
    rcases eliminate_cases consistent eliminated with ⟨reason, -, rfl⟩ | eliminates
    · exact ⟨stages, reaches.gaveUp, whole ▸ List.prefix_append ..⟩
    · obtain ⟨stage, rfl, processes⟩ : ∃ stage : Stage, stage.predicate = p ∧
          Processes setup stage during outcome := by
        cases eliminates with
        | passedOver splits isEmpty => exact ⟨_, rfl, .passedOver splits isEmpty⟩
        | eliminated splits notEmpty returned =>
            exact ⟨_, rfl, .eliminated splits notEmpty returned⟩
      have next : (stages ++ [stage]).map Stage.predicate ++ left = order.order := by
        rw [← whole]
        simp
      cases outcome with
      | going after => exact ⟨_, reaches.processed processes, next⟩
      | halted halt after =>
          exact ⟨_, reaches.processed processes, next ▸ List.prefix_append ..⟩

/-- Eliminated predicates never come back.  Every run of a search, from every store that can be
built and whatever halts it, goes through some stages, one for each predicate of a part of the
order that it starts with, or of the whole order unless it is halted.  After each stage no clause
of the store mentions a predicate that has been processed, and every clause that is inserted is
neither a tautology nor empty.  So if the order has all predicates of the store and the search is
not halted, nothing is left but the empty clause, if the store had it from the start. -/
theorem eliminated_never_return (setup : Setup) (order : EliminationOrder)
    (query : Option AnswerQuery) (signature : Signature) (operations : List Store.Operation) :
    let store := Store.empty.performAll operations
    let search := Search.start setup store query signature
    (search.run setup order).Always fun outcome =>
      ∃ stages, Reaches setup search stages outcome ∧
        stages.map Stage.predicate <+: order.order ∧
        (∀ final, outcome = .going final → stages.map Stage.predicate = order.order) ∧
        outcome.state.store = store.performAll (stages.flatMap Stage.operations) ∧
        (∀ done, done <+: stages → ∀ c ∈ store.performAll (done.flatMap Stage.operations),
          ∀ p ∈ done.map Stage.predicate, c.mentions p = false) ∧
        (∀ stage ∈ stages, ∀ c ∈ stage.inserted, c.isTautology = false ∧ c ≠ .empty) ∧
        ((∀ c ∈ store, ∀ p, c.mentions p = true → p ∈ order.order) →
          ∀ final, outcome = .going final →
            ∀ c, c ∈ final.store ↔ c = .empty ∧ .empty ∈ store) := by
  intro store search
  refine (Monitored.always_iff _).mpr fun outcome returned => ?_
  obtain ⟨stages, reaches, part, whole⟩ := exists_reaches rfl returned
  have clears := reaches.clears
  refine ⟨stages, reaches, part, whole, clears.store, clears.cleared, clears.inserted, ?_⟩
  rintro covers final rfl c
  constructor
  · intro mem
    have isEmpty : c = .empty := by
      refine Clause.eq_empty_of_not_mentions fun p => Bool.eq_false_iff.mpr fun mentioned => ?_
      obtain ⟨d, dMem, dMentions⟩ := clears.mentioned c mem p mentioned
      have isPast : p ∈ stages.map Stage.predicate := whole final rfl ▸ covers d dMem p dMentions
      have absent := clears.cleared stages List.prefix_rfl c (clears.store ▸ mem) p isPast
      cases absent.symm.trans mentioned
    exact ⟨isEmpty, clears.empty.mp (isEmpty ▸ mem)⟩
  · rintro ⟨rfl, inStore⟩
    exact clears.empty.mpr inStore

end Search

end Entailment.FirstOrder
