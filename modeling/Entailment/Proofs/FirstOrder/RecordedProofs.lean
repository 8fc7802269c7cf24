import Entailment.Proofs.FirstOrder.ProofRecords
import Entailment.Proofs.FirstOrder.RefutationSoundness
import Entailment.Proofs.FirstOrder.Saturation
import Entailment.Proofs.FirstOrder.UnsatisfiableStores
import Entailment.Proofs.Runs

/-!
# Recorded refutations

A search that tracks its proofs records each resolvent with the two clauses it was
resolved from.  Every clause that takes part in a search is one of the store that the
search started with, or it was recorded as a resolvent before.  So the record stays
sound through every resolvent, pair, round and elimination.

The tree of a refutation follows the first pair of parents that was recorded for each
clause.  Its leaves are clauses of the store and its inner clauses are resolvents of
their parents.  Stopped at the clauses of the store it is a proof.  A clause of the
store may however be derived again, and the tree goes on below it: it can be an inner
clause, and the tree can be circular.
-/

namespace Entailment.FirstOrder

open Monitored

/-- Findings whose record is sound, over a proper signature. -/
structure Findings.Records (given : Clause → Prop) (findings : Findings) : Prop where
  proper : findings.signature.IsProper
  sound : findings.proof.IsSound given

/-- A clause that can be resolved: it was given or its derivation is recorded. -/
structure Findings.Knows (given : Clause → Prop) (c : Clause) (findings : Findings) : Prop where
  isOver : c.IsOver findings.signature
  nodup : c.literals.Nodup
  recorded : findings.proof.active = true → given c ∨ findings.proof.Mentions c

/-- Nothing that was known gets lost from some findings to others. -/
structure Findings.LeadTo (findings after : Findings) : Prop where
  gains : findings.signature.GainsVariables after.signature
  active : after.proof.active = findings.proof.active
  keeps : findings.proof.KeepsClauses after.proof

variable {given : Clause → Prop} {p : PredicateSymbol} {setup : Setup}

theorem Outcome.keeps_iff {σ : Type} {invariant : σ → Prop} {outcome : Outcome σ} :
    outcome.Keeps invariant (fun _ => True) ↔ invariant outcome.state := by
  cases outcome with
  | going state => rfl
  | halted halt state => exact iff_of_eq (true_and _)

namespace Findings

variable {findings after : Findings} {c : Clause}

theorem LeadTo.refl (findings : Findings) : findings.LeadTo findings :=
  ⟨.refl _, rfl, .refl _⟩

theorem LeadTo.trans {last : Findings} (first : findings.LeadTo after)
    (second : after.LeadTo last) : findings.LeadTo last :=
  ⟨first.gains.trans second.gains, second.active.trans first.active,
    first.keeps.trans second.keeps⟩

theorem Knows.mono (knows : findings.Knows given c) (leads : findings.LeadTo after) :
    after.Knows given c :=
  ⟨knows.isOver.mono leads.gains.grows, knows.nodup, fun active =>
    (knows.recorded (leads.active ▸ active)).imp_right leads.keeps.mentions⟩

/-- Taking an attempt changes the answers only. -/
theorem Records.takeAttempt {filter : AnswerFilter} {attempt : Attempt}
    {outcome : Outcome Findings} (records : findings.Records given)
    (returned : (findings.takeAttempt filter p attempt).Returns outcome) :
    outcome.state.Records given ∧ findings.LeadTo outcome.state := by
  rcases takeAttempt_cases returned with ⟨rfl, -⟩ | ⟨_, _, -, ⟨-, rfl⟩ | ⟨-, error, rfl⟩⟩ <;>
    exact ⟨⟨records.proper, records.sound⟩, .refl _, rfl, .refl _⟩

end Findings

theorem Attempt.nodup_of_mem_resolvents {signature : Signature} {attempts : List Attempt}
    {r : Clause} (mem : r ∈ Attempt.resolvents signature attempts) : r.literals.Nodup := by
  obtain ⟨attempt, -, given⟩ := List.mem_filterMap.mp mem
  obtain ⟨resolvent, resolved, rfl⟩ := Option.map_eq_some_iff.mp given
  obtain ⟨σ, -, rfl⟩ := Option.map_eq_some_iff.mp resolved
  exact Clause.nodup_apply (Clause.nodup_apply (Sorted.isIncreasing_ofList _).nodup)

/-! ## One elimination -/

namespace Elimination

/-- An elimination with a sound record, whose clauses are all known. -/
structure Records (given : Clause → Prop) (state : Elimination) : Prop where
  findings : state.findings.Records given
  side : ∀ sign, ∀ c ∈ state.side sign, state.findings.Knows given c
  kept : ∀ c ∈ state.kept, state.findings.Knows given c

variable {state : Elimination} {c d left right r : Clause} {outcome : Outcome Elimination}

theorem proof_withResolvent {collects : Bool} :
    (state.withResolvent p collects left right r).findings.proof =
      state.findings.proof.record r left right := by
  unfold withResolvent
  cases r.fate p collects <;> rfl

/-- Findings that know what the findings before knew. -/
theorem Records.withFindings {findings : Findings} (records : state.Records given)
    (isRecord : findings.Records given) (leads : state.findings.LeadTo findings) :
    Records given { state with findings := findings } :=
  ⟨isRecord, fun sign c mem => (records.side sign c mem).mono leads,
    fun c mem => (records.kept c mem).mono leads⟩

/-- Putting a resolvent of known clauses where it belongs. -/
theorem Records.withResolvent (records : state.Records given)
    (leftKnown : state.findings.Knows given left) (rightKnown : state.findings.Knows given right)
    (resolvent : left.ResolventOf right r) (rOver : r.IsOver state.findings.signature)
    (rNodup : r.literals.Nodup) (collects : Bool) :
    (state.withResolvent p collects left right r).Records given ∧
      state.findings.LeadTo (state.withResolvent p collects left right r).findings := by
  obtain ⟨-, -, -, sameSignature, -⟩ := @withResolvent_unchanged p collects r left right state
  obtain ⟨sound, keeps, active, mentions⟩ := records.findings.sound.record
    leftKnown.recorded rightKnown.recorded resolvent
  rw [← @proof_withResolvent p state left right r collects] at sound keeps active mentions
  have leads : state.findings.LeadTo (state.withResolvent p collects left right r).findings :=
    ⟨sameSignature ▸ .refl _, active, keeps⟩
  have rKnown : (state.withResolvent p collects left right r).findings.Knows given r :=
    ⟨sameSignature ▸ rOver, rNodup, fun isActive => .inr (mentions (active ▸ isActive))⟩
  refine ⟨⟨⟨sameSignature ▸ records.findings.proper, sound⟩, fun sign c mem => ?_,
    fun c mem => ?_⟩, leads⟩
  · rcases mem_side_withResolvent.mp mem with old | ⟨rfl, -⟩
    · exact (records.side sign c old).mono leads
    · exact rKnown
  · rcases mem_kept_withResolvent.mp mem with old | ⟨rfl, -⟩
    · exact (records.kept c old).mono leads
    · exact rKnown

/-- Taking a resolvent of known clauses. -/
theorem Records.absorb (records : state.Records given)
    (leftKnown : state.findings.Knows given left) (rightKnown : state.findings.Knows given right)
    (resolvent : left.ResolventOf right r) (rOver : r.IsOver state.findings.signature)
    (rNodup : r.literals.Nodup)
    (returned : (absorb setup p left right r state).Returns outcome) :
    outcome.state.Records given ∧ state.findings.LeadTo outcome.state.findings := by
  have placed := @Records.withResolvent given p state left right r records leftKnown rightKnown
    resolvent rOver rNodup (state.findings.collects p)
  rcases absorb_cases rfl returned with ⟨rfl, -⟩ | ⟨rfl, -⟩ | ⟨rfl, -⟩
  · exact placed
  · exact ⟨placed.1.withFindings ⟨placed.1.findings.proper, placed.1.findings.sound⟩
      ⟨.refl _, rfl, .refl _⟩, placed.2.gains, placed.2.active, placed.2.keeps⟩
  · exact placed

/-- Resolving two known clauses takes the resolvents of the two. -/
theorem Records.resolve (records : state.Records given) (cKnown : state.findings.Knows given c)
    (dKnown : state.findings.Knows given d)
    (returned : (resolve setup p c d state).Returns outcome) :
    outcome.state.Records given ∧ state.findings.LeadTo outcome.state.findings := by
  have copied := Clause.renameApart_disjointCopies records.findings.proper cKnown.isOver
    dKnown.isOver cKnown.nodup dKnown.nodup
  generalize copies : c.renameApart d state.findings.signature = renamed at copied
  obtain ⟨left, right, extended⟩ := renamed
  have leads : state.findings.LeadTo { state.findings with signature := extended } :=
    ⟨copied.gains, rfl, .refl _⟩
  have begins (findings : Findings) (kept : findings.Records given ∧
      Findings.LeadTo { state.findings with signature := extended } findings) :
      Records given { state with findings := findings } ∧
        Findings.LeadTo { state.findings with signature := extended } findings :=
    ⟨records.withFindings kept.1 (leads.trans kept.2), kept.2⟩
  have ended : outcome.Keeps (fun after => after.Records given ∧
      Findings.LeadTo { state.findings with signature := extended } after.findings)
      fun _ => True := by
    refine resolve_ends (fun findings => findings.Records given ∧
      Findings.LeadTo { state.findings with signature := extended } findings) copies
      (fun attempt _ findings outcome kept taken => ?_)
      ⟨⟨copied.proper, records.findings.sound⟩, .refl _⟩ begins
      (fun r mem during outcome kept taken => Outcome.keeps_iff.mpr ?_) returned
    · obtain ⟨after, further⟩ := kept.1.takeAttempt taken
      cases outcome with
      | going findings => exact ⟨after, kept.2.trans further⟩
      | halted halt findings => exact ⟨trivial, begins findings ⟨after, kept.2.trans further⟩⟩
    · have soFar := leads.trans kept.2
      have rOver : r.IsOver extended := (copied.toRenamedApart.resolvent_spec.{0} mem).1
      obtain ⟨after, further⟩ := kept.1.absorb (cKnown.mono soFar) (dKnown.mono soFar)
        (copied.resolventOf mem) (rOver.mono kept.2.gains.grows)
        (Attempt.nodup_of_mem_resolvents mem) taken
      exact ⟨after, kept.2.trans further⟩
  exact (Outcome.keeps_iff.mp ended).imp_right leads.trans

/-- Trying a pair of known clauses. -/
theorem Records.tryPair (records : state.Records given) {pair : Clause × Clause}
    (leftKnown : state.findings.Knows given pair.1)
    (rightKnown : state.findings.Knows given pair.2)
    (returned : (tryPair setup p pair state).Returns outcome) :
    outcome.state.Records given ∧ state.findings.LeadTo outcome.state.findings := by
  rcases tryPair_cases returned with ⟨reason, rfl⟩ | returned
  · exact ⟨records, .refl _⟩
  · have noted : Records given { state with tried := state.tried.push pair } := { records with }
    exact noted.resolve leftKnown rightKnown returned

theorem Records.nextRound (records : state.Records given) : state.nextRound.Records given :=
  ⟨records.findings, fun sign c mem => records.side sign c (mem_side_nextRound.mp mem),
    records.kept⟩

/-- An elimination keeps a sound record, and the clauses of its pairs stay known. -/
theorem preserves_records :
    Preserves setup p (Records given) (fun findings c => findings.Knows given c) Findings.LeadTo
      fun _ => True where
  refl := .refl
  trans := .trans
  mono leads knows := knows.mono leads
  clauses records c mem := mem.elim
    (fun mem => records.side .positive c (mem_side_iff.mpr (.inl mem)))
    fun mem => records.side .negative c (mem_side_iff.mpr (.inl mem))
  nextRound := Records.nextRound
  step records leftKnown rightKnown returned :=
    Outcome.keeps_iff.mpr (records.tryPair leftKnown rightKnown returned)

end Elimination

/-! ## A search -/

/-- A search with a consistent store of known clauses and a sound record. -/
structure Search.Records (given : Clause → Prop) (search : Search) : Prop where
  consistent : search.store.Consistent
  findings : search.findings.Records given
  known : ∀ c ∈ search.store, search.findings.Knows given c

/-- Eliminating a predicate. -/
theorem Search.Records.eliminate {search : Search} {outcome : Outcome Search}
    (records : search.Records given)
    (returned : (Search.eliminate setup p search).Returns outcome) :
    outcome.state.Records given := by
  have restKnown {bucket : Bucket} {rest : Store} (splits : search.store.Splits p bucket rest)
      (c : Clause) (mem : c ∈ rest) : search.findings.Knows given c :=
    records.known c (splits.mem_rest.mp mem).1
  rcases eliminate_cases records.consistent returned with
    ⟨reason, -, rfl⟩ | ⟨splits, -⟩ | @⟨bucket, rest, ended, splits, -, ran⟩
  · exact records
  · exact ⟨splits.consistent, records.findings, restKnown splits⟩
  have started : (Elimination.start bucket search.findings).Records given :=
    ⟨records.findings, fun sign c mem =>
      records.known c (splits.mem_side.mp (Elimination.mem_side_start.mp mem)).1,
      by simp [Elimination.start]⟩
  obtain ⟨afterRecords, leads⟩ :=
    Outcome.keeps_iff.mp (Elimination.preserves_records.run started ran)
  rw [state_goOn]
  obtain ⟨consistent, mem_iff⟩ := splits.consistent.insertAll ended.state.kept
  refine ⟨consistent, afterRecords.findings, fun c mem => ?_⟩
  rcases (mem_iff c).mp mem with isKept | old
  · exact afterRecords.kept c isKept
  · exact (restKnown splits c old).mono leads

/-- The record of a search is sound for the clauses of the store it started with. -/
theorem Store.refute_isSound {store : Store} {signature extended : Signature}
    {order : EliminationOrder} {query : Option AnswerQuery} {refutation : Refutation}
    (consistent : store.Consistent) (proper : signature.IsProper)
    (isOver : ∀ c ∈ store, c.IsOver signature)
    (increasing : ∀ c ∈ store, Sorted.IsIncreasing c.literals)
    (returned : (store.refute setup order query signature).Returns (.ok refutation, extended)) :
    refutation.proof.IsSound (· ∈ store) := by
  obtain ⟨outcome, outcomeReturned, ended⟩ := (returns_bind ..).mp returned
  have started : (Search.start setup store query signature).Records (· ∈ store) :=
    ⟨consistent, ⟨proper, ProofIndex.isSound_start _ _⟩,
      fun c mem => ⟨isOver c mem, (increasing c mem).nodup, fun _ => .inl mem⟩⟩
  have marked : Search.Records (· ∈ store) { Search.start setup store query signature with
      findings := { (Search.start setup store query signature).findings with refuted := true } } :=
    ⟨started.consistent, ⟨started.findings.proper, started.findings.sound⟩,
      fun c mem => ⟨isOver c mem, (increasing c mem).nodup, fun _ => .inl mem⟩⟩
  have ends : outcome.Ends (Search.Records (· ∈ store)) fun _ => Search.Records (· ∈ store) := by
    refine Search.run_ends (fun p search outcome records eliminated => ?_) started
      (fun _ => ⟨marked, marked⟩) outcomeReturned
    have after := records.eliminate eliminated
    cases outcome <;> exact after
  cases outcome with
  | going search =>
      cases ended
      exact ends.findings.sound
  | halted halt search =>
      cases halt <;> cases ended <;> exact ends.findings.sound

/-- The tree of a recorded refutation, as it is counted and shown.  A clause without
parents is one of the store, a clause with parents is a resolvent of them, and stopped at
the clauses of the store the tree is a proof.  The parents of a clause that is not in the
store are older than the clause, so that a circle can only go through clauses of the store
that were derived again. -/
theorem recorded_refutation_restsOn_store {store : Store} {signature extended : Signature}
    {order : EliminationOrder} {query : Option AnswerQuery} {refutation : Refutation}
    (storeBuilt : store.Built) (signatureBuilt : signature.Built)
    (isOver : ∀ c ∈ store, c.IsOver signature)
    (returned : (store.refute setup order query signature).Returns (.ok refutation, extended))
    {visits : List ProofIndex.Visit} (walked : refutation.proof.treeWalk? = some visits) :
    ∀ visit ∈ visits, ∃ c, refutation.proof.clauseAt? visit.id = some c ∧
      refutation.proof.RestsOn (· ∈ store) visit.id ∧
      ((refutation.proof.firstParents visit.id = [] ∧ c ∈ store) ∨
        ∃ left right, refutation.proof.firstParents visit.id = [left, right] ∧
          refutation.proof.Resolves (left, right) c ∧
          (c ∉ store → left < visit.id ∧ right < visit.id)) := by
  intro visit mem
  have sound := Store.refute_isSound storeBuilt.consistent.1 signatureBuilt.isProper isOver
    storeBuilt.consistent.2 returned
  obtain ⟨c, found⟩ := sound.exists_clauseAt? walked mem
  exact ⟨c, found, sound.restsOn found, sound.firstParents_cases found⟩

/-- The constants `a` and `b` and the predicates `p` and `q`. -/
def Signature.circular : Signature :=
  (((Signature.empty.internFunction "a" 0).2.internFunction "b" 0).2.internPredicate
    "p" 1).2.internPredicate "q" 0 |>.2

/-- The clauses `p(a)`, `¬p(a) ∨ p(b)`, `¬p(b) ∨ p(a)`, `¬p(b) ∨ q` and `¬q`. -/
def Store.circular : Store :=
  Store.empty.insertAll
    [.ofList [.positive ⟨⟨0⟩, [.app ⟨0⟩ []]⟩],
      .ofList [.negative ⟨⟨0⟩, [.app ⟨0⟩ []]⟩, .positive ⟨⟨0⟩, [.app ⟨1⟩ []]⟩],
      .ofList [.negative ⟨⟨0⟩, [.app ⟨1⟩ []]⟩, .positive ⟨⟨0⟩, [.app ⟨0⟩ []]⟩],
      .ofList [.negative ⟨⟨0⟩, [.app ⟨1⟩ []]⟩, .positive ⟨⟨1⟩, []⟩],
      .ofList [.negative ⟨⟨1⟩, []⟩]]

/-- The refutation of the circular store, which tracks its proof. -/
def Store.refuteCircular : Monitored Event (Except Error Refutation × Signature) :=
  Store.circular.refute ⟨{ Config.default with trackProofs := true }, .single, .zero⟩
    (.fixed [⟨0⟩, ⟨1⟩]) none .circular

theorem Store.refuteCircular_returns :
    ∃ refutation extended, Store.refuteCircular.Returns (.ok refutation, extended) ∧
      refutation.proof.treeWalk?.map (·.map ProofIndex.Visit.id) =
        some [10, 8, 0, 2, 0, 1, 3, 6, 1, 5, 3, 6, 9] ∧
      refutation.proof.firstParents 0 = [2, 3] ∧ refutation.proof.firstParents 2 = [0, 1] ∧
      refutation.proof.clauseAt? 0 = some (.ofList [.positive ⟨⟨0⟩, [.app ⟨0⟩ []]⟩]) := by
  have run : (Store.refuteCircular.run .zero none).1.1.toOption.map (fun refutation =>
      (refutation.proof.treeWalk?.map (·.map ProofIndex.Visit.id),
        refutation.proof.firstParents 0, refutation.proof.firstParents 2,
        refutation.proof.clauseAt? 0)) =
      some (some [10, 8, 0, 2, 0, 1, 3, 6, 1, 5, 3, 6, 9], [2, 3], [0, 1],
        some (.ofList [.positive ⟨⟨0⟩, [.app ⟨0⟩ []]⟩])) := by cbv
  obtain ⟨refutation, extended, returned, seen⟩ := exists_run_ok_with _ run
  simp only [Prod.mk.injEq] at seen
  exact ⟨refutation, extended, returned, seen⟩

theorem Store.isOver_circular : ∀ c ∈ Store.circular, c.IsOver .circular := by
  have known : Signature.circular =
      ⟨#[], #[⟨"a", 0, false⟩, ⟨"b", 0, false⟩], #[⟨"p", 1⟩, ⟨"q", 0⟩], #[], 0⟩ := by cbv
  intro c mem
  have inList := (((Store.consistent_empty.insertAll _).2 c).mp mem).resolve_right
    (Store.not_mem_empty c)
  simp only [List.mem_cons, List.not_mem_nil, or_false] at inList
  rcases inList with rfl | rfl | rfl | rfl | rfl
  all_goals
    rw [Clause.isOver_ofList, known]
    intro literal literalMem
    simp only [List.mem_cons, List.not_mem_nil, or_false] at literalMem
    rcases literalMem with rfl | rfl
    all_goals
      exact ⟨by decide, rfl, by
        simp [Literal.positive, Literal.negative, Signature.functionInfo]⟩

theorem Store.built_circular : Store.circular.Built :=
  ((((Store.Built.empty.insert _).insert _).insert _).insert _).insert _

theorem Signature.built_circular : Signature.circular.Built :=
  (((Signature.Built.empty.internFunction _ _).internFunction _ _).internPredicate
    _ _).internPredicate _ _

/-- The recorded refutation of the circular store rests on the store. -/
theorem recorded_refutation_restsOn_store_circular :
    Store.circular.Built ∧ Signature.circular.Built ∧
      (∀ c ∈ Store.circular, c.IsOver .circular) ∧
      ∃ refutation extended visits, Store.refuteCircular.Returns (.ok refutation, extended) ∧
        refutation.proof.treeWalk? = some visits ∧ visits.length = 13 ∧
        ∀ visit ∈ visits, refutation.proof.RestsOn (· ∈ Store.circular) visit.id := by
  refine ⟨Store.built_circular, Signature.built_circular, Store.isOver_circular, ?_⟩
  obtain ⟨refutation, extended, returned, ids, -⟩ := Store.refuteCircular_returns
  obtain ⟨visits, walked, isList⟩ := Option.map_eq_some_iff.mp ids
  refine ⟨refutation, extended, visits, returned, walked, ?_, fun visit mem => ?_⟩
  · simpa using congrArg List.length isList
  · obtain ⟨c, -, rests, -⟩ := recorded_refutation_restsOn_store Store.built_circular
      Signature.built_circular Store.isOver_circular returned walked visit mem
    exact rests

/-- A clause of the store can have parents in the tree of a refutation, and be a parent of
one of its parents: `p(a)` is shown below `p(b)`, which is shown below `p(a)`. -/
theorem recorded_refutation_is_circular :
    ∃ refutation extended visits, Store.refuteCircular.Returns (.ok refutation, extended) ∧
      refutation.proof.treeWalk? = some visits ∧
      ∃ visit ∈ visits, ∃ other ∈ visits, other.id ∈ refutation.proof.firstParents visit.id ∧
        visit.id ∈ refutation.proof.firstParents other.id ∧
        ∃ c ∈ Store.circular, refutation.proof.clauseAt? visit.id = some c := by
  obtain ⟨refutation, extended, returned, ids, ofFirst, ofOther, clause⟩ :=
    Store.refuteCircular_returns
  obtain ⟨visits, walked, isList⟩ := Option.map_eq_some_iff.mp ids
  have visited (id : Nat) (mem : id ∈ [10, 8, 0, 2, 0, 1, 3, 6, 1, 5, 3, 6, 9]) :
      ∃ visit ∈ visits, visit.id = id :=
    List.mem_map.mp (isList ▸ mem)
  obtain ⟨visit, visitMem, isFirst⟩ := visited 0 (by decide)
  obtain ⟨other, otherMem, isOther⟩ := visited 2 (by decide)
  refine ⟨refutation, extended, visits, returned, walked, visit, visitMem, other, otherMem,
    ?_, ?_, .ofList [.positive ⟨⟨0⟩, [.app ⟨0⟩ []]⟩], ?_, ?_⟩
  · simp [isFirst, isOther, ofFirst]
  · simp [isFirst, isOther, ofOther]
  · exact ((Store.consistent_empty.insertAll _).2 _).mpr (.inl (List.mem_cons_self ..))
  · rw [isFirst, clause]

end Entailment.FirstOrder
