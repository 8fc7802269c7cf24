import Entailment.Proofs.FirstOrder.GroundElimination
import Entailment.Proofs.FirstOrder.RefutationSoundness
import Entailment.Proofs.Runs

/-!
# Deciding ground clauses

When the predicates of a store of ground clauses have been eliminated, in
whatever order, no literal is left.  A search that was not cut short has then
found out whether the clauses can be true together: it was refuted if they
cannot, and otherwise the truth values of each predicate can be chosen in the
opposite order of the eliminations.
-/

namespace Entailment.FirstOrder

open Monitored (returns_bind exists_run_ok_with)

variable {store : Store}

/-- The stores that can be built from clauses. -/
inductive Store.Built : Store → Prop
  | empty : Built .empty
  | insert {store : Store} (built : Built store) (literals : List (Literal Atom)) :
      Built (store.insert (.ofList literals)).2
  | remove {store rest : Store} (built : Built store) {id : Nat} {c : Clause}
      (removed : store.remove id = .ok (c, rest)) : Built rest
  | takeBucket {store rest : Store} (built : Built store) {p : PredicateSymbol} {bucket : Bucket}
      (taken : store.takeBucket p = .ok (bucket, rest)) : Built rest

/-- The index of such a store is right, and the literals of its clauses are in
order. -/
theorem Store.Built.consistent {store : Store} (built : store.Built) :
    store.Consistent ∧ ∀ c ∈ store, Sorted.IsIncreasing c.literals := by
  induction built with
  | empty => exact ⟨consistent_empty, fun c mem => absurd mem (not_mem_empty c)⟩
  | insert _ literals ih =>
      obtain ⟨consistent, mem_iff⟩ := ih.1.insert (.ofList literals)
      refine ⟨consistent, fun c mem => ?_⟩
      rcases (mem_iff c).mp mem with rfl | old
      · exact Sorted.isIncreasing_ofList literals
      · exact ih.2 c old
  | @remove store rest _ id c removed ih =>
      cases found : store.get? id with
      | none => simp [Store.remove, found] at removed
      | some d =>
          obtain ⟨expected, isRest, consistent, get?_iff⟩ := ih.1.remove found
          rw [isRest] at removed
          cases removed
          refine ⟨consistent, fun e mem => ?_⟩
          obtain ⟨number, isThere⟩ := mem
          exact ih.2 e ⟨number, ((get?_iff number e).mp isThere).2⟩
  | @takeBucket store rest _ p bucket taken ih =>
      obtain ⟨expected, left, isTaken, consistent, -, -, remains⟩ := ih.1.takeBucket p
      rw [isTaken] at taken
      cases taken
      exact ⟨consistent, fun c mem => ih.2 c ((remains c).mp mem).1⟩

/-- Truth values of the ground atoms that make all clauses of a store true. -/
def Store.IsSatisfiedBy (truth : Atom → Prop) (store : Store) : Prop :=
  ∀ c ∈ store, c.IsTrue truth

/-- What a search over ground clauses derives from a store: ground clauses on the
predicates that are left, which are true where the store is. -/
structure Store.Derives (store : Store) (signature : Signature) (left : List PredicateSymbol)
    (c : Clause) : Prop where
  isGroundOver : c.IsGroundOver signature
  predicates : ∀ p, c.mentions p = true → p ∈ left
  isTrue : ∀ truth, store.IsSatisfiedBy truth → c.IsTrue truth

namespace Store.Derives

variable {store : Store} {signature : Signature} {left : List PredicateSymbol}
  {p : PredicateSymbol} {c : Clause}

theorem isInherited (store : Store) (signature : Signature) (left : List PredicateSymbol)
    (p : PredicateSymbol) : Clause.IsInherited p signature (store.Derives signature left) where
  isGroundOver derives := derives.isGroundOver
  resolvent := by
    intro c d r cDerives dDerives resolvent
    refine ⟨resolvent.isGroundOver cDerives.isGroundOver dDerives.isGroundOver,
      fun q mentioned => ?_, fun truth satisfied => ?_⟩
    · rcases resolvent.mentions_or_mentions mentioned with mentioned | mentioned
      · exact cDerives.predicates q mentioned
      · exact dDerives.predicates q mentioned
    · exact resolvent.isTrue (cDerives.isTrue truth satisfied) (dDerives.isTrue truth satisfied)

/-- The empty clause is derived when no truth values will do. -/
theorem empty_iff :
    store.Derives signature left .empty ↔ ∀ truth, ¬store.IsSatisfiedBy truth := by
  constructor
  · intro derives truth satisfied
    exact Clause.not_isTrue_empty (derives.isTrue truth satisfied)
  · intro unsatisfiable
    exact ⟨⟨rfl, Clause.isOver_empty, .nil⟩, by simp [Clause.mentions, Clause.empty],
      fun truth satisfied => absurd satisfied (unsatisfiable truth)⟩

/-- A clause without the next predicate. -/
theorem tail (derives : store.Derives signature (p :: left) c) (absent : c.mentions p = false) :
    store.Derives signature left c := by
  refine ⟨derives.isGroundOver, fun q mentioned => ?_, derives.isTrue⟩
  refine (List.mem_cons.mp (derives.predicates q mentioned)).resolve_left ?_
  rintro rfl
  simp [absent] at mentioned

end Store.Derives

/-- What a search knows about the store it started with when some predicates are
left: its clauses are derived from the store, and unless it is refuted or cut
short, truth values for its clauses give truth values for the store. -/
structure Search.Decides (store : Store) (signature : Signature) (left : List PredicateSymbol)
    (search : Search) : Prop where
  consistent : search.store.Consistent
  answers : search.findings.answers = none
  sameSignature : search.findings.signature = signature
  clause : ∀ c ∈ search.store, store.Derives signature left c
  refuted : search.findings.refuted = true → ∀ truth, ¬store.IsSatisfiedBy truth
  undecided : search.findings.truncated = false → search.findings.refuted = false →
    Clause.empty ∉ search.store ∧
      ∀ truth, search.store.IsSatisfiedBy truth → ∃ original, store.IsSatisfiedBy original

/-- A search over ground clauses is halted at a refutation only. -/
def Store.HaltedAt (store : Store) (halt : Halt) (_ : Search) : Prop :=
  halt = .refuted ∧ ∀ truth, ¬store.IsSatisfiedBy truth

namespace Search.Decides

variable {store rest : Store} {signature : Signature} {left : List PredicateSymbol}
  {p : PredicateSymbol} {setup : Setup} {search : Search} {bucket : Bucket}

/-- The elimination of the next predicate starts with derived clauses. -/
theorem isRegular_start (decides : search.Decides store signature (p :: left))
    (splits : search.store.Splits p bucket rest) :
    (Elimination.start bucket search.findings).IsRegular p signature
      (store.Derives signature (p :: left)) := by
  have inSide {sign : Sign} {c : Clause} :
      c ∈ (Elimination.start bucket search.findings).side sign ↔
        c ∈ search.store ∧ c.hasLiteralOn p sign = true :=
    Elimination.mem_side_start.trans splits.mem_side
  refine ⟨decides.answers, decides.sameSignature, fun sign c mem => ?_,
    fun sign other c mem onSide => ?_, by simp [Elimination.start],
    fun refuted => Store.Derives.empty_iff.mpr (decides.refuted refuted)⟩
  · exact ⟨decides.clause c (inSide.mp mem).1, (inSide.mp mem).2⟩
  · exact inSide.mpr ⟨(inSide.mp mem).1, onSide⟩

/-- The search after an elimination, whether the elimination came to its end or
was cut short. -/
theorem after (decides : search.Decides store signature (p :: left))
    (splits : search.store.Splits p bucket rest) {state : Elimination}
    (regular : state.IsRegular p signature (store.Derives signature (p :: left)))
    (undecided : state.findings.truncated = false → state.findings.refuted = false →
      Clause.empty ∉ search.store ∧ ∀ truth, (∀ c, c ∈ state.kept ∨ c ∈ rest → c.IsTrue truth) →
        ∃ original, store.IsSatisfiedBy original) :
    (Search.after rest state).Decides store signature left := by
  obtain ⟨consistent, mem_iff⟩ := splits.consistent.insertAll state.kept
  refine ⟨consistent, regular.answers, regular.signature, fun c mem => ?_, fun refuted => ?_,
    fun whole notRefuted => ?_⟩
  · rcases (mem_iff c).mp mem with isKept | old
    · obtain ⟨derives, absent, -⟩ := regular.kept c isKept
      exact derives.tail absent
    · obtain ⟨inStore, absent⟩ := splits.mem_rest.mp old
      exact (decides.clause c inStore).tail absent
  · exact Store.Derives.empty_iff.mp (regular.refuted refuted)
  · obtain ⟨noEmpty, lifts⟩ := undecided whole notRefuted
    constructor
    · intro mem
      rcases (mem_iff _).mp mem with isKept | old
      · exact (regular.kept _ isKept).2.2 rfl
      · exact noEmpty (splits.mem_rest.mp old).1
    · intro truth satisfied
      exact lifts truth fun c mem => satisfied c ((mem_iff c).mpr mem)

/-- Truth values for what is left after a complete elimination give truth values
for the clauses before it. -/
theorem lift {state : Elimination} {truth : Atom → Prop}
    (splits : search.store.Splits p bucket rest)
    (complete : Elimination.IsExhausted p signature (store.Derives signature (p :: left))
      (.start bucket search.findings) state)
    (notRefuted : state.findings.refuted = false)
    (satisfied : ∀ c, c ∈ state.kept ∨ c ∈ rest → c.IsTrue truth) :
    ∃ extended, search.store.IsSatisfiedBy extended := by
  obtain ⟨extended, agrees, allTrue⟩ := complete.exists_isTrue (Store.Derives.isInherited ..)
    notRefuted fun c mem => satisfied c (.inl mem)
  refine ⟨extended, fun c mem => ?_⟩
  cases mentioned : c.mentions p with
  | true =>
      obtain ⟨sign, onSide⟩ := Store.mentions_iff.mp mentioned
      exact allTrue sign c (Elimination.mem_side_start.mpr (splits.mem_side.mpr ⟨mem, onSide⟩))
  | false =>
      have isTrue := satisfied c (.inr (splits.mem_rest.mpr ⟨mem, mentioned⟩))
      refine (Clause.isTrue_congr fun literal literalMem => agrees _ fun onIt => ?_).mpr isTrue
      have mentions : c.mentions p = true :=
        List.any_eq_true.mpr ⟨literal, literalMem, decide_eq_true onIt⟩
      simp [mentioned] at mentions

/-- Eliminating the next predicate. -/
theorem eliminate (unlimited : setup.config.limits = .unlimited)
    (decides : search.Decides store signature (p :: left)) {outcome : Outcome Search}
    (returned : (Search.eliminate setup p search).Returns outcome) :
    outcome.Ends (Search.Decides store signature left) store.HaltedAt := by
  rcases eliminates_of_unlimited unlimited decides.consistent returned with
    @⟨bucket, rest, splits, isEmpty⟩ | @⟨bucket, rest, ended, splits, -, ran⟩
  · refine decides.after splits (decides.isRegular_start splits) fun whole notRefuted => ?_
    obtain ⟨noEmpty, lifts⟩ := decides.undecided whole notRefuted
    refine ⟨noEmpty, fun truth satisfied => lifts truth fun c mem => ?_⟩
    exact satisfied c (.inr (splits.mem_rest.mpr ⟨mem, splits.not_mentions isEmpty mem⟩))
  · have ends := (Elimination.explores_of_isInherited (Store.Derives.isInherited ..)
      unlimited).run (decides.isRegular_start splits) ran
    cases ended with
    | going state =>
        refine decides.after splits ends.keeps fun whole notRefuted => ?_
        have wasNotRefuted : search.findings.refuted = false := by
          by_contra wasRefuted
          have stillRefuted := ends.grows.refuted (Bool.not_eq_false _ ▸ wasRefuted)
          simp [notRefuted] at stillRefuted
        obtain ⟨noEmpty, lifts⟩ :=
          decides.undecided (ends.truncated.symm.trans whole) wasNotRefuted
        refine ⟨noEmpty, fun truth satisfied => ?_⟩
        obtain ⟨extended, allTrue⟩ := lift splits ends notRefuted satisfied
        exact lifts extended allTrue
    | halted halt state =>
        rcases ends with ⟨rfl, derivesEmpty⟩ | ⟨rfl, regular, truncated⟩
        · exact ⟨rfl, Store.Derives.empty_iff.mp derivesEmpty⟩
        · refine decides.after splits regular fun whole => ?_
          simp [truncated] at whole

/-- When no predicate is left, a search that is not refuted and not cut short has
no clause left. -/
theorem exists_isSatisfiedBy (decides : search.Decides store signature [])
    (whole : search.findings.truncated = false) (notRefuted : search.findings.refuted = false) :
    ∃ truth, store.IsSatisfiedBy truth := by
  obtain ⟨noEmpty, lifts⟩ := decides.undecided whole notRefuted
  refine lifts (fun _ => True) fun c mem => ?_
  obtain ⟨literals⟩ := c
  cases literals with
  | nil => exact absurd mem noEmpty
  | cons literal others =>
      have mentioned : (Clause.mk (literal :: others)).mentions literal.atom.predicate = true := by
        simp [Clause.mentions]
      cases (decides.clause _ mem).predicates _ mentioned

end Search.Decides

/-- A run over ground clauses ends with a search that has nothing left to do, or
at a refutation. -/
theorem Search.run_decides {setup : Setup} {order : EliminationOrder} {signature : Signature}
    {outcome : Outcome Search} (consistent : store.Consistent)
    (clause : ∀ c ∈ store, store.Derives signature order.order c)
    (unlimited : setup.config.limits = .unlimited)
    (returned : ((Search.start setup store none signature).run setup order).Returns outcome) :
    outcome.Ends (Search.Decides store signature []) store.HaltedAt := by
  refine Search.run_returns (fun p left search outcome decides eliminated =>
    decides.eliminate unlimited eliminated) (fun notEmpty => ?_) (fun isEmpty => ?_) returned
  · have noEmpty : Clause.empty ∉ store := fun mem => by
      have contained : store.containsEmpty = true := consistent.contains_iff.mpr mem
      simp [Search.start, contained] at notEmpty
    exact ⟨consistent, rfl, rfl, clause, by simp [Search.start],
      fun _ _ => ⟨noEmpty, fun truth satisfied => ⟨truth, satisfied⟩⟩⟩
  · have unsatisfiable (truth : Atom → Prop) : ¬store.IsSatisfiedBy truth := fun satisfied =>
      Clause.not_isTrue_empty (satisfied .empty (consistent.contains_iff.mp isEmpty))
    exact ⟨⟨consistent, rfl, rfl, clause, fun _ => unsatisfiable, by simp⟩, rfl, unsatisfiable⟩

/-- A result of trying to refute a store without a query and without limits, by
an order that has all predicates of the store. -/
inductive Store.RunsTo (store : Store) (signature : Signature) : Except Error Refutation → Prop
  | intro {setup : Setup} {order : EliminationOrder} {result : Except Error Refutation}
      {extended : Signature} (unlimited : setup.config.limits = .unlimited)
      (ordered : ∀ p ∈ store.predicates, p ∈ order.order)
      (returned : (store.refute setup order none signature).Returns (result, extended)) :
      RunsTo store signature result

/-- What a status says about the clauses of a store. -/
def Store.IsDecidedAs (store : Store) (status : Status) : Prop :=
  ((∀ truth, ¬store.IsSatisfiedBy truth) → status = .refuted) ∧
    ((∃ truth, store.IsSatisfiedBy truth) → status = .exhausted)

/-- Two statuses that say something about the same clauses are equal. -/
theorem Store.IsDecidedAs.unique {status other : Status} (first : store.IsDecidedAs status)
    (second : store.IsDecidedAs other) : status = other := by
  by_cases satisfiable : ∃ truth, store.IsSatisfiedBy truth
  · rw [first.2 satisfiable, second.2 satisfiable]
  · simp only [not_exists] at satisfiable
    rw [first.1 satisfiable, second.1 satisfiable]

/-- A run over ground clauses succeeds, and decides them unless it is cut
short. -/
theorem Store.RunsTo.isDecidedAs {signature : Signature} {result : Except Error Refutation}
    (runs : store.RunsTo signature result) (built : store.Built)
    (isGround : ∀ c ∈ store, c.isGround = true) (isOver : ∀ c ∈ store, c.IsOver signature) :
    ∃ refutation, result = .ok refutation ∧
      (refutation.truncated = false → store.IsDecidedAs refutation.status) := by
  obtain ⟨consistent, isIncreasing⟩ := built.consistent
  cases runs with
  | @intro setup order _ extended unlimited ordered returned =>
      obtain ⟨outcome, outcomeReturned, ended⟩ := (returns_bind ..).mp returned
      cases ended
      have clause (c : Clause) (mem : c ∈ store) : store.Derives signature order.order c :=
        ⟨⟨isGround c mem, isOver c mem, isIncreasing c mem⟩,
          fun p mentioned => ordered p (consistent.mem_predicates mem mentioned),
          fun _ satisfied => satisfied c mem⟩
      have ends := Search.run_decides consistent clause unlimited outcomeReturned
      have refutedStatus (unsatisfiable : ∀ truth, ¬store.IsSatisfiedBy truth) :
          store.IsDecidedAs .refuted :=
        ⟨fun _ => rfl, fun ⟨truth, satisfied⟩ => absurd satisfied (unsatisfiable truth)⟩
      cases outcome with
      | going search =>
          refine ⟨_, rfl, fun whole => ?_⟩
          cases refuted : search.findings.refuted with
          | true =>
              simp only [Search.finish, if_true]
              exact refutedStatus (ends.refuted refuted)
          | false =>
              have satisfiable := ends.exists_isSatisfiedBy whole refuted
              simp only [Search.finish]
              exact ⟨fun unsatisfiable => absurd satisfiable (not_exists.mpr unsatisfiable),
                fun _ => rfl⟩
      | halted halt search =>
          obtain ⟨rfl, unsatisfiable⟩ := ends
          exact ⟨_, rfl, fun _ => refutedStatus unsatisfiable⟩

/-- Eliminating the predicates of a store of ground clauses decides the clauses,
whatever the order and the mode are: every run succeeds, and a run that is not cut
short says that the store is refuted when no truth values of the ground atoms make
all clauses true, and that it is exhausted otherwise.  So two such runs agree. -/
theorem refute_decides_ground {store : Store} {signature : Signature} (built : store.Built)
    (isGround : ∀ c ∈ store, c.isGround = true) (isOver : ∀ c ∈ store, c.IsOver signature) :
    (∀ result, store.RunsTo signature result → ∃ refutation, result = .ok refutation ∧
      (refutation.truncated = false →
        ((∀ truth, ¬store.IsSatisfiedBy truth) → refutation.status = .refuted) ∧
        ((∃ truth, store.IsSatisfiedBy truth) → refutation.status = .exhausted))) ∧
    ∀ first second, store.RunsTo signature (.ok first) → store.RunsTo signature (.ok second) →
      first.truncated = false → second.truncated = false → first.status = second.status := by
  refine ⟨fun result runs => runs.isDecidedAs built isGround isOver, ?_⟩
  intro first second firstRuns secondRuns firstWhole secondWhole
  obtain ⟨_, ⟨⟩, firstDecided⟩ := firstRuns.isDecidedAs built isGround isOver
  obtain ⟨_, ⟨⟩, secondDecided⟩ := secondRuns.isDecidedAs built isGround isOver
  exact (firstDecided firstWhole).unique (secondDecided secondWhole)

/-- The clauses `p(a) ∨ q`, `¬q` and `¬p(a)`. -/
def Store.contradiction : Store :=
  Store.empty.insertAll
    [.ofList [.positive ⟨⟨0⟩, [.app ⟨0⟩ []]⟩, .positive ⟨⟨1⟩, []⟩],
      .ofList [.negative ⟨⟨1⟩, []⟩], .ofList [.negative ⟨⟨0⟩, [.app ⟨0⟩ []]⟩]]

/-- The symbols `a`, `p` and `q`. -/
def Signature.contradiction : Signature :=
  ⟨#[], #[⟨"a", 0, false⟩], #[⟨"p", 1⟩, ⟨"q", 0⟩], #[], 0⟩

/-- Two runs with different orders and modes refute a contradiction. -/
theorem refute_decides_ground_contradiction :
    ∃ first second, Store.contradiction.RunsTo .contradiction (.ok first) ∧
      Store.contradiction.RunsTo .contradiction (.ok second) ∧
      first.truncated = false ∧ second.truncated = false ∧ first.status = .refuted ∧
      first.status = second.status ∧ ∀ truth, ¬Store.contradiction.IsSatisfiedBy truth := by
  have built : Store.contradiction.Built := ((Store.Built.empty.insert _).insert _).insert _
  have areGround (c : Clause) (mem : c ∈ Store.contradiction) :
      c.IsGroundOver .contradiction := by
    have constantOver : (Term.app ⟨0⟩ []).IsOver .contradiction := .app (by decide) rfl (by simp)
    have pOver : Atom.IsOver .contradiction ⟨⟨0⟩, [.app ⟨0⟩ []]⟩ :=
      ⟨by decide, rfl, by simpa using constantOver⟩
    have qOver : Atom.IsOver .contradiction ⟨⟨1⟩, []⟩ := ⟨by decide, rfl, by simp⟩
    have inList := (((Store.consistent_empty.insertAll _).2 c).mp mem).resolve_right
      (Store.not_mem_empty c)
    simp only [List.mem_cons, List.not_mem_nil, or_false] at inList
    rcases inList with rfl | rfl | rfl
    all_goals
      exact Clause.isGroundOver_ofList
        (by simp [Literal.positive, Literal.negative, Atom.isGround])
        (by simp [Literal.positive, Literal.negative, pOver, qOver])
  have runs {setup : Setup} {order : EliminationOrder}
      (unlimited : setup.config.limits = .unlimited)
      (ordered : ∀ p ∈ Store.contradiction.predicates, p ∈ order.order)
      (evaluated : ((Store.contradiction.refute setup order none .contradiction).run
        .zero none).1.1.toOption.map (fun refutation => (refutation.truncated, refutation.status)) =
          some (false, .refuted)) :
      ∃ refutation, Store.contradiction.RunsTo .contradiction (.ok refutation) ∧
        refutation.truncated = false ∧ refutation.status = .refuted := by
    obtain ⟨refutation, extended, returned, seen⟩ := exists_run_ok_with _ evaluated
    obtain ⟨truncated, status⟩ := Prod.mk.inj seen
    exact ⟨refutation, .intro unlimited ordered returned, truncated, status⟩
  have predicates : Store.contradiction.predicates = [⟨0⟩, ⟨1⟩] := by cbv
  obtain ⟨first, firstRuns, firstWhole, firstStatus⟩ := @runs ⟨.default, .single, .zero⟩
    (.fixed [⟨1⟩, ⟨0⟩]) rfl (by simp [predicates, EliminationOrder.fixed]) (by cbv)
  obtain ⟨second, secondRuns, secondWhole, -⟩ := @runs ⟨.default, .all, .zero⟩
    (.fixed [⟨0⟩, ⟨1⟩, ⟨0⟩]) rfl (by simp [predicates, EliminationOrder.fixed]) (by cbv)
  obtain ⟨decides, agrees⟩ := refute_decides_ground built (fun c mem => (areGround c mem).isGround)
    fun c mem => (areGround c mem).isOver
  refine ⟨first, second, firstRuns, secondRuns, firstWhole, secondWhole, firstStatus,
    agrees first second firstRuns secondRuns firstWhole secondWhole, fun truth satisfied => ?_⟩
  obtain ⟨_, ⟨⟩, decided⟩ := decides _ firstRuns
  have exhausted := (decided firstWhole).2 ⟨truth, satisfied⟩
  rw [firstStatus] at exhausted
  cases exhausted

end Entailment.FirstOrder
