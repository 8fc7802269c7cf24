import Entailment.Proofs.FirstOrder.EliminationInvariant

/-!
# Eliminations that come to their end

A round of an elimination tries the pairs with a new clause, and there is another
round unless a round made no resolvent.  So at the end no clause of the bucket is
new, and all pairs of different clauses, one with a positive and one with a
negative literal on the predicate, have been tried.

What it means that a pair has been tried is left open.  It has to come true when
the pair is tried, and it must not get lost later: no resolvent that joined the
bucket or was kept is dropped, and no answer is taken back.
-/

namespace Entailment.FirstOrder

/-- A printed tuple is among the answers that have been found. -/
def Findings.Reports (printed : List String) (findings : Findings) : Prop :=
  ∃ query, findings.answers = some query ∧ printed ∈ query.answers.tuples

namespace Elimination

variable {p : PredicateSymbol} {collects : Bool} {sign : Sign} {c r left right : Clause}
  {state after : Elimination} {setup : Setup}

/-- All clauses that are in the bucket or are to join it. -/
def side (sign : Sign) (state : Elimination) : List Clause :=
  (state.bucket.append state.added).side sign

theorem mem_side_iff :
    c ∈ state.side sign ↔ c ∈ state.bucket.side sign ∨ c ∈ state.added.side sign :=
  Bucket.mem_side_append

theorem not_mem_side_empty : c ∉ Bucket.empty.side sign := by
  cases sign <;> simp [Bucket.side, Bucket.empty]

theorem mem_side_nextRound : c ∈ state.nextRound.side sign ↔ c ∈ state.side sign := by
  rw [mem_side_iff]
  exact or_iff_left not_mem_side_empty

theorem mem_side_start {bucket : Bucket} {findings : Findings} :
    c ∈ (start bucket findings).side sign ↔ c ∈ bucket.side sign := by
  rw [mem_side_iff, or_iff_left (show c ∉ (start bucket findings).added.side sign from
    not_mem_side_empty)]
  exact Bucket.mem_side_append.trans (or_iff_right not_mem_side_empty)

theorem mem_or_mem_appendNew {others clauses : List Clause} :
    c ∈ others ∨ c ∈ appendNew others clauses r ↔ (c ∈ others ∨ c ∈ clauses) ∨ c = r := by
  unfold appendNew
  split
  · rename_i present
    simp only [Bool.or_eq_true, List.contains_iff_mem] at present
    constructor
    · exact .inl
    · rintro (known | rfl)
      · exact known
      · exact present
  · rw [List.mem_append, List.mem_singleton, or_assoc]

/-- A resolvent that returns to the bucket is on the sides on which it has
literals. -/
theorem mem_side_enqueue :
    c ∈ (state.enqueue p r).side sign ↔
      c ∈ state.side sign ∨ (c = r ∧ r.hasLiteralOn p sign = true) := by
  rw [mem_side_iff, mem_side_iff]
  by_cases onSide : r.hasLiteralOn p sign = true
  · cases sign <;>
      simpa [onSide, enqueue, Bucket.side, bucket] using mem_or_mem_appendNew
  · cases sign <;> simp [onSide, enqueue, Bucket.side, bucket]

/-- A resolvent is where it belongs. -/
def Accounts (p : PredicateSymbol) (collects : Bool) (r : Clause) (state : Elimination) : Prop :=
  match r.fate p collects with
  | .refutation => state.findings.refuted = true
  | .returned => ∀ sign, r.hasLiteralOn p sign = true → r ∈ state.side sign
  | .kept => r ∈ state.kept
  | .tautology | .disjunctiveAnswer => True

/-- Nothing gets lost from one state to another. -/
structure GrowsTo (state after : Elimination) : Prop where
  refuted : state.findings.refuted = true → after.findings.refuted = true
  kept : ∀ c ∈ state.kept, c ∈ after.kept
  side : ∀ sign, ∀ c ∈ state.side sign, c ∈ after.side sign
  reports : ∀ printed, state.findings.Reports printed → after.findings.Reports printed

theorem GrowsTo.refl (state : Elimination) : state.GrowsTo state :=
  ⟨id, fun _ => id, fun _ _ => id, fun _ => id⟩

theorem GrowsTo.trans {last : Elimination} (first : state.GrowsTo after)
    (second : after.GrowsTo last) : state.GrowsTo last :=
  ⟨second.refuted ∘ first.refuted, fun c mem => second.kept c (first.kept c mem),
    fun sign c mem => second.side sign c (first.side sign c mem),
    fun printed reported => second.reports printed (first.reports printed reported)⟩

theorem GrowsTo.accounts (grows : state.GrowsTo after) (accounts : state.Accounts p collects r) :
    after.Accounts p collects r := by
  unfold Accounts at accounts ⊢
  cases fate : r.fate p collects with
  | refutation =>
      rw [fate] at accounts
      exact grows.refuted accounts
  | returned =>
      rw [fate] at accounts
      exact fun sign onSide => grows.side sign r (accounts sign onSide)
  | kept =>
      rw [fate] at accounts
      exact grows.kept r accounts
  | tautology => trivial
  | disjunctiveAnswer => trivial

/-! ## One resolvent -/

theorem mem_side_withResolvent :
    c ∈ (state.withResolvent p collects left right r).side sign ↔ c ∈ state.side sign ∨
      (c = r ∧ r.fate p collects = .returned ∧ r.hasLiteralOn p sign = true) := by
  unfold withResolvent
  cases r.fate p collects with
  | returned =>
      simp only [true_and]
      exact @mem_side_enqueue p sign c r (state.record left right r)
  | _ => exact (or_iff_left (by simp)).symm

theorem mem_kept_withResolvent :
    c ∈ (state.withResolvent p collects left right r).kept ↔
      c ∈ state.kept ∨ (c = r ∧ r.fate p collects = .kept) := by
  unfold withResolvent
  cases r.fate p collects with
  | kept =>
      have appended := @mem_or_mem_appendNew c r [] state.kept
      simp only [List.not_mem_nil, false_or] at appended
      simp only [and_true]
      exact appended
  | _ => exact (or_iff_left (by simp)).symm

theorem refuted_withResolvent :
    (state.withResolvent p collects left right r).findings.refuted = true ↔
      state.findings.refuted = true ∨ r.fate p collects = .refutation := by
  unfold withResolvent
  cases r.fate p collects with
  | refutation => simp [place]
  | _ => exact (or_iff_left (by simp)).symm

/-- What a resolvent does not change. -/
theorem withResolvent_unchanged :
    (state.withResolvent p collects left right r).settled = state.settled ∧
      (state.withResolvent p collects left right r).fresh = state.fresh ∧
      (state.withResolvent p collects left right r).findings.answers = state.findings.answers ∧
      (state.withResolvent p collects left right r).findings.signature =
        state.findings.signature ∧
      (state.withResolvent p collects left right r).findings.truncated =
        state.findings.truncated := by
  unfold withResolvent
  cases r.fate p collects <;> exact ⟨rfl, rfl, rfl, rfl, rfl⟩

theorem growsTo_withResolvent : state.GrowsTo (state.withResolvent p collects left right r) where
  refuted refuted := refuted_withResolvent.mpr (.inl refuted)
  kept _ mem := mem_kept_withResolvent.mpr (.inl mem)
  side _ _ mem := mem_side_withResolvent.mpr (.inl mem)
  reports printed reported := by
    obtain ⟨-, -, sameAnswers, -⟩ :=
      @withResolvent_unchanged p collects r left right state
    unfold Findings.Reports
    rw [sameAnswers]
    exact reported

theorem accounts_withResolvent :
    (state.withResolvent p collects left right r).Accounts p collects r := by
  unfold Accounts
  cases fate : r.fate p collects with
  | refutation => exact refuted_withResolvent.mpr (.inr fate)
  | returned => exact fun sign onSide => mem_side_withResolvent.mpr (.inr ⟨rfl, fate, onSide⟩)
  | kept => exact mem_kept_withResolvent.mpr (.inr ⟨rfl, fate⟩)
  | tautology => trivial
  | disjunctiveAnswer => trivial

/-- From one state to another within a round: the bucket is the same, nothing is
lost, and a resolvent is counted before it can join the bucket. -/
structure Advances (setup : Setup) (state after : Elimination) : Prop where
  settled : after.settled = state.settled
  fresh : after.fresh = state.fresh
  truncated : after.findings.truncated = state.findings.truncated
  grows : state.GrowsTo after
  counted : (after.resolutions = state.resolutions ∧ after.added = state.added) ∨
    (state.resolutions < after.resolutions ∧ after.resolutions < setup.config.maxResolutions)

theorem Advances.refl (setup : Setup) (state : Elimination) : Advances setup state state :=
  ⟨rfl, rfl, rfl, .refl state, .inl ⟨rfl, rfl⟩⟩

theorem Advances.trans {last : Elimination} (first : Advances setup state after)
    (second : Advances setup after last) : Advances setup state last := by
  refine ⟨second.settled.trans first.settled, second.fresh.trans first.fresh,
    second.truncated.trans first.truncated, first.grows.trans second.grows, ?_⟩
  rcases second.counted with ⟨same, sameAdded⟩ | ⟨more, below⟩
  · rw [same, sameAdded]
    exact first.counted
  · refine .inr ⟨?_, below⟩
    rcases first.counted with ⟨same, -⟩ | ⟨moreBefore, -⟩ <;> omega

theorem Advances.bucket (advances : Advances setup state after) : after.bucket = state.bucket := by
  rw [Elimination.bucket, Elimination.bucket, advances.settled, advances.fresh]

theorem advances_withResolvent (below : state.resolutions + 1 < setup.config.maxResolutions) :
    Advances setup state (state.withResolvent p collects left right r) := by
  obtain ⟨settled, fresh, -, -, truncated⟩ :=
    @withResolvent_unchanged p collects r left right state
  refine ⟨settled, fresh, truncated, growsTo_withResolvent, .inr ?_⟩
  rw [resolutions_withResolvent]
  exact ⟨Nat.lt_succ_self _, below⟩

/-- Noting that a pair is tried changes nothing else. -/
theorem advances_tried {pair : Clause × Clause}
    (advances : Advances setup { state with tried := state.tried.push pair } after) :
    Advances setup state after :=
  ⟨advances.settled, advances.fresh, advances.truncated,
    ⟨advances.grows.refuted, advances.grows.kept, advances.grows.side, advances.grows.reports⟩,
    advances.counted⟩

/-! ## Rounds -/

theorem growsTo_nextRound (state : Elimination) : state.GrowsTo state.nextRound :=
  ⟨id, fun _ => id, fun _ _ => mem_side_nextRound.mpr, fun _ => id⟩

/-- An invariant of an elimination under which trying a pair brings something that
lasts. -/
structure Explores (setup : Setup) (p : PredicateSymbol) (invariant : Elimination → Prop)
    (tried : Clause × Clause → Elimination → Prop) (halted : Halt → Elimination → Prop) :
    Prop where
  lasts : ∀ {pair state after}, state.GrowsTo after → tried pair state → tried pair after
  nextRound : ∀ {state}, invariant state → invariant state.nextRound
  step : ∀ {pair state outcome}, invariant state → pair.1 ∈ state.bucket.positive →
    pair.2 ∈ state.bucket.negative → (tryPair setup p pair state).Returns outcome →
      outcome.Ends (fun after => invariant after ∧ Advances setup state after ∧ tried pair after)
        halted

/-- All pairs of different settled clauses have been tried. -/
def IsSettled (tried : Clause × Clause → Elimination → Prop) (state : Elimination) : Prop :=
  ∀ c ∈ state.settled.positive, ∀ d ∈ state.settled.negative, c ≠ d → tried (c, d) state

/-- An elimination that came to its end: all pairs of different clauses have been
tried. -/
structure IsComplete (invariant : Elimination → Prop)
    (tried : Clause × Clause → Elimination → Prop) (start state : Elimination) : Prop where
  keeps : invariant state
  grows : start.GrowsTo state
  truncated : state.findings.truncated = start.findings.truncated
  tried : ∀ c ∈ state.side .positive, ∀ d ∈ state.side .negative, c ≠ d → tried (c, d) state

namespace Explores

variable {invariant : Elimination → Prop} {tried : Clause × Clause → Elimination → Prop}
  {halted : Halt → Elimination → Prop} {outcome : Outcome Elimination}

/-- A round tries all its pairs. -/
theorem round (explores : Explores setup p invariant tried halted) (keeps : invariant state)
    (returned : (forEach (tryPair setup p) state.newPairs state).Returns outcome) :
    outcome.Ends (fun after => (invariant after ∧ Advances setup state after) ∧
      ∀ pair ∈ state.newPairs, tried pair after) halted := by
  refine forEach_gathers (fun pair mem during outcome kept triedReturned => ?_)
    ⟨keeps, .refl setup state⟩ returned
  obtain ⟨leftMem, rightMem, -, -⟩ := mem_newPairs.mp mem
  rw [← kept.2.bucket] at leftMem rightMem
  refine (explores.step kept.1 leftMem rightMem triedReturned).imp
    fun ⟨afterKeeps, advances, isTried⟩ => ?_
  exact ⟨⟨afterKeeps, kept.2.trans advances⟩, isTried,
    fun _ earlier => explores.lasts advances.grows earlier⟩

/-- After a round the pairs of the bucket have been tried: they were settled
before or were pairs of the round. -/
theorem isSettled_nextRound (explores : Explores setup p invariant tried halted)
    (settled : state.IsSettled tried) (advances : Advances setup state after)
    (triedPairs : ∀ pair ∈ state.newPairs, tried pair after) : after.nextRound.IsSettled tried := by
  intro c cMem d dMem different
  change c ∈ after.bucket.positive at cMem
  change d ∈ after.bucket.negative at dMem
  rw [advances.bucket] at cMem dMem
  apply explores.lasts (growsTo_nextRound after)
  by_cases isNew : c ∈ state.fresh.positive ∨ d ∈ state.fresh.negative
  · exact triedPairs (c, d) (mem_newPairs.mpr ⟨cMem, dMem, isNew, different⟩)
  · simp only [not_or] at isNew
    have cSettled := (List.mem_append.mp cMem).resolve_right isNew.1
    have dSettled := (List.mem_append.mp dMem).resolve_right isNew.2
    exact explores.lasts advances.grows (settled c cSettled d dSettled different)

/-- A whole elimination. -/
theorem run (explores : Explores setup p invariant tried halted) {bucket : Bucket}
    {findings : Findings} (keeps : invariant (start bucket findings))
    (returned : (run setup p bucket findings).Returns outcome) :
    outcome.Ends (IsComplete invariant tried (start bucket findings)) halted := by
  refine @saturate_ends setup p _ outcome (fun state => invariant state ∧
      state.IsSettled tried ∧ state.added = .empty ∧ (start bucket findings).GrowsTo state ∧
      state.findings.truncated = findings.truncated) _ _
    (fun {state outcome} kept roundReturned => ?_)
    ⟨keeps, by simp [IsSettled, start, Bucket.empty], rfl, .refl _, rfl⟩ (saturate_of_run returned)
  obtain ⟨keeps, settled, nothingAdded, grows, truncated⟩ := kept
  refine (explores.round keeps roundReturned).imp fun {after} ended => ?_
  obtain ⟨⟨afterKeeps, advances⟩, triedPairs⟩ := ended
  have nowSettled := explores.isSettled_nextRound settled advances triedPairs
  have nextKeeps := explores.nextRound afterKeeps
  have nextGrows := (grows.trans advances.grows).trans (growsTo_nextRound after)
  have nextTruncated := advances.truncated.trans truncated
  refine ⟨⟨nextKeeps, nowSettled, rfl, nextGrows, nextTruncated⟩, fun noOther => ?_⟩
  -- A round that is the last one made no resolvent, so no clause is new.
  have noneNew : after.added = .empty := by
    rcases advances.counted with ⟨-, sameAdded⟩ | counted
    · rw [sameAdded, nothingAdded]
    · exact absurd counted noOther
  have inSettled {sign : Sign} {c : Clause} (mem : c ∈ after.nextRound.side sign) :
      c ∈ after.nextRound.settled.side sign := by
    rw [mem_side_nextRound, mem_side_iff, noneNew] at mem
    exact mem.resolve_right not_mem_side_empty
  exact ⟨nextKeeps, nextGrows, nextTruncated, fun c cMem d dMem different =>
    nowSettled c (inSettled cMem) d (inSettled dMem) different⟩

end Explores

end Elimination

end Entailment.FirstOrder
