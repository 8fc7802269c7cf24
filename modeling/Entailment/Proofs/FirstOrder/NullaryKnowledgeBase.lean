import Entailment.Proofs.FirstOrder.Conservativity
import Entailment.Proofs.FirstOrder.GreedyOrder
import Entailment.Proofs.FirstOrder.GroundDecision
import Entailment.Proofs.FirstOrder.KnowledgeBaseModel

/-!
# Knowledge bases whose predicates have no arguments

The clauses of formulas whose predicates have no arguments are ground, so a
search over them decides whether they can be true together.  Truth values for the
clauses are truth values for the names of the predicates, since no two predicates
share a name and an arity.  So a query of this kind is proven exactly when it
follows from what the knowledge base was told, unless the search is cut short.
-/

namespace Entailment.FirstOrder

open Monitored

/-! ## Formulas whose predicates have no arguments -/

/-- Every predicate of a written formula stands without arguments. -/
abbrev SurfaceFormula.IsNullary (formula : SurfaceFormula) : Prop :=
  formula.EveryAtom (fun _ a => ∃ name, a = .predicate name []) []

theorem Lowering.everyAtom_lowerFormula {bound : List (String × Variable)}
    {formula : SurfaceFormula} {names : List String}
    (nullary : formula.EveryAtom (fun _ a => ∃ name, a = .predicate name []) names)
    (state : Lowering) (binders : List Variable) :
    (lowerFormula bound formula state).1.EveryAtom (fun _ a => a.args = []) binders := by
  induction formula generalizing bound names state binders with
  | truth value => trivial
  | atom a =>
      obtain ⟨name, rfl⟩ := nullary
      rfl
  | not body ih => exact ih nullary state binders
  | binary connective left right ihLeft ihRight =>
      exact ⟨ihLeft nullary.1 state binders, ihRight nullary.2 _ binders⟩
  | quantified quantifier name body ih => exact ih nullary _ _

theorem SurfaceFormula.IsNullary.lower {formula : SurfaceFormula} (nullary : formula.IsNullary)
    (signature : Signature) :
    (formula.lower signature).1.formula.EveryAtom (fun _ a => a.args = []) [] :=
  Lowering.everyAtom_lowerFormula nullary _ _

/-- What is known of the clauses of a formula without arguments, or of its
negation. -/
structure NullaryClauses (invert : Bool) (formula : Formula Variable Atom) (signature : Signature)
    (clauses : List Clause) (after : Signature) : Prop where
  gains : signature.GainsSymbols (fun name => ¬IsPlain name) after
  isOver : ∀ c ∈ clauses, c.IsOver after
  isList : ∀ c ∈ clauses, ∃ literals, c = .ofList literals
  noArguments : ∀ c ∈ clauses, ∀ literal ∈ c.literals, literal.atom.args = []
  holds : ∀ ⦃D : Type⦄ (M : Model D), (∀ c ∈ clauses, M.Satisfies c) →
    ∀ ρ, inverted invert (formulaHolds M ρ formula)

/-- A formula without arguments has clauses, which are made from lists of literals
without arguments and have no other models than the formula. -/
theorem exists_nullaryClauses {signature : Signature} (proper : signature.IsProper)
    {free : List Variable} (freeOver : ∀ v ∈ free, v.index < signature.vars.size) (invert : Bool)
    {formula : Formula Variable Atom} (atoms : formula.EveryAtom (Atom.IsScoped signature free) [])
    (noArguments : formula.EveryAtom (fun _ a => a.args = []) []) :
    ∃ clauses, (clausesOf invert free formula signature).clauses = .ok clauses ∧
      NullaryClauses invert formula signature clauses
        (clausesOf invert free formula signature).signature := by
  have both := atoms.and noArguments
  obtain ⟨normal, disjunctions, clauses, normalized, sameTruth, made, clausifies⟩ :=
    clausesOf_spec.{0} (fun _ _ good => good.1) proper.hasCanonical freeOver invert both
  have reflects :=
    clausesOf_reflects.{0} (fun _ _ good => good.1) proper freeOver normalized both made
  refine ⟨clauses, made, clausifies.gains, clausifies.isOver, ?_, ?_, ?_⟩
  · intro c mem
    obtain ⟨disjunction, -, σ, -, rfl⟩ := clausifies.variant c mem
    unfold Clause.apply
    split
    · exact ⟨disjunction, rfl⟩
    · exact ⟨_, rfl⟩
  · intro c mem literal literalMem
    obtain ⟨disjunction, disjunctionMem, σ, -, rfl⟩ := clausifies.variant c mem
    obtain ⟨original, originalMem, rfl⟩ := Clause.mem_literals_apply.mp literalMem
    obtain ⟨binders, a, τ, good, isInstance, -⟩ :=
      clausifies.atoms disjunction disjunctionMem original (Sorted.mem_ofList.mp originalMem)
    simp [Literal.map, isInstance, Atom.apply, good.2]
  · intro D M satisfied ρ
    exact (sameTruth M ρ).mp (reflects.holds M satisfied ρ)

theorem Clause.isGround_of_noArguments {c : Clause}
    (noArguments : ∀ literal ∈ c.literals, literal.atom.args = []) : c.isGround = true :=
  List.all_eq_true.mpr fun literal mem => by
    rw [Atom.isGround, noArguments literal mem]
    rfl

theorem Store.Built.insertAll {store : Store} (built : store.Built) {clauses : List Clause}
    (areLists : ∀ c ∈ clauses, ∃ literals, c = .ofList literals) :
    (store.insertAll clauses).Built := by
  induction clauses generalizing store with
  | nil => exact built
  | cons c rest ih =>
      obtain ⟨literals, rfl⟩ := areLists c (by simp)
      exact ih (built.insert literals) fun d mem => areLists d (by simp [mem])

/-! ## Truth values for predicates and for their names -/

namespace Signature

/-- The structure of one value in which a name has the truth value of the
predicate that has it. -/
def named (signature : Signature) (truth : Atom → Prop) : Structure String String Unit where
  function _ _ := ()
  predicate name args := ∃ p : PredicateSymbol, p.index < signature.predicates.size ∧
    signature.predicateInfo p = ⟨name, args.length⟩ ∧ truth ⟨p, []⟩

/-- The model that interprets predicates by their names. -/
def byName (signature : Signature) (N : Structure String String Unit) : Model Unit where
  function _ _ := ()
  predicate p := N.predicate (signature.predicateInfo p).name

theorem byName_reads (signature : Signature) (N : Structure String String Unit) :
    (signature.byName N).Reads signature N :=
  ⟨fun _ _ _ => rfl, fun _ _ _ => rfl⟩

/-- An atom without arguments has the truth value that its name has. -/
theorem IsProper.holds_named_iff {signature : Signature} (proper : signature.IsProper)
    {truth : Atom → Prop} {a : Atom} (isOver : a.IsOver signature) (noArguments : a.args = [])
    (ρ : Variable → Unit) :
    a.Holds (signature.byName (signature.named truth)) ρ ↔ truth a := by
  obtain ⟨p, args⟩ := a
  cases noArguments
  have arity : (signature.predicateInfo p).arity = 0 := isOver.arity.symm
  constructor
  · rintro ⟨q, bound, isInfo, holds⟩
    have same : signature.predicateInfo q = signature.predicateInfo p := by
      rw [isInfo]
      simp [← arity]
    have equal : q = p := proper.predicate_inj bound isOver.bound same
    exact equal ▸ holds
  · intro holds
    exact ⟨p, isOver.bound, by simp [← arity], holds⟩

/-- Truth values that make a clause without arguments true are a model of it. -/
theorem IsProper.satisfies_named {signature : Signature} (proper : signature.IsProper)
    {truth : Atom → Prop} {c : Clause} (isOver : c.IsOver signature)
    (noArguments : ∀ literal ∈ c.literals, literal.atom.args = []) (isTrue : c.IsTrue truth) :
    (signature.byName (signature.named truth)).Satisfies c := fun ρ =>
  (Clause.isTrue_congr fun literal mem =>
    proper.holds_named_iff (isOver literal mem) (noArguments literal mem) ρ).mpr isTrue

end Signature

/-! ## The closed query -/

/-- A formula that is true under all valuations is true when it is closed. -/
theorem Lowered.holds_close {D : Type} {M : Model D} {lowered : Lowered}
    (holds : ∀ ρ, formulaHolds M ρ lowered.formula) (ρ : Variable → D) :
    formulaHolds M ρ lowered.close := by
  unfold close
  induction lowered.freeVariables generalizing ρ with
  | nil => exact holds ρ
  | cons v rest ih => exact fun d => ih _

/-! ## What such a knowledge base keeps to -/

namespace KnowledgeBase

variable {kb : KnowledgeBase} {text : String} {told : List SurfaceFormula}

/-- What a knowledge base keeps to that was told formulas without arguments: a
model of its clauses is one of these formulas. -/
structure IsNullary (told : List SurfaceFormula) (kb : KnowledgeBase) : Prop
    extends IsSound.{0} told kb where
  proper : kb.signature.IsProper
  built : kb.store.Built
  faithful : kb.planner.IsFaithful
  noArguments : ∀ c ∈ kb.store, ∀ literal ∈ c.literals, literal.atom.args = []
  reflects : ∀ ⦃D : Type⦄ (N : Structure String String D) (M : Model D),
    M.Reads kb.signature N → M.IsModelOf kb.store → ∀ formula ∈ told, N.SatisfiesClosure formula

theorem isNullary_empty (config : Config) : IsNullary [] (empty config) where
  toIsSound := isSound_empty config
  proper := Signature.isProper_empty
  built := .empty
  faithful := Planner.isFaithful_start
  noArguments c mem := absurd mem (Store.not_mem_empty c)
  reflects := by simp

/-- A formula without arguments is accepted, and the store keeps to it. -/
theorem IsNullary.tell {formula : SurfaceFormula} {result : Except Error KnowledgeBase}
    (nullary : kb.IsNullary told) (parsed : SurfaceFormula.parse text = .ok formula)
    (isNullary : formula.IsNullary) (returned : (kb.tell text).Returns result) :
    ∃ after, result = .ok after ∧ after.config = kb.config ∧
      after.IsNullary (told ++ [formula]) := by
  have lowered :=
    SurfaceFormula.lower_means.{0} kb.signature (SurfaceFormula.isNamed_of_parse parsed)
  obtain ⟨clauses, made, nullaryClauses⟩ :=
    exists_nullaryClauses (lowered.gains.proper nullary.proper) lowered.freeOver false
      (lowered.atoms.imp fun _ _ written => written.toIsScoped) (isNullary.lower kb.signature)
  have accepted := returned
  simp only [KnowledgeBase.tell, parsed, Lowered.clausify, made, returns_bind, returns_tellAll,
    returns_tell, true_and, exists_const, returns_pure] at returned
  subst returned
  refine ⟨_, rfl, rfl, ?_⟩
  obtain ⟨_, parsedAgain, sound⟩ := nullary.toIsSound.tell accepted
  cases parsed.symm.trans parsedAgain
  have grows := lowered.gains.grows.trans nullaryClauses.gains.grows
  obtain ⟨-, mem_iff, -⟩ := nullary.toIsSound.insertAll grows nullaryClauses.isOver
  refine ⟨sound, nullaryClauses.gains.proper (lowered.gains.proper nullary.proper),
    nullary.built.insertAll nullaryClauses.isList, nullary.faithful, ?_, ?_⟩
  · intro c mem
    rcases (mem_iff c).mp mem with isNew | old
    · exact nullaryClauses.noArguments c isNew
    · exact nullary.noArguments c old
  · intro D N M reads isModel other mem
    have readsLowered := reads.of_growsTo nullaryClauses.gains.grows
    rcases List.mem_append.mp mem with isOld | isLast
    · exact nullary.reflects N M (readsLowered.of_growsTo lowered.gains.grows)
        (fun c old => isModel c ((mem_iff c).mpr (.inr old))) other isOld
    · cases List.mem_singleton.mp isLast
      refine (lowered.satisfiesClosure_iff readsLowered).mpr ?_
      exact nullaryClauses.holds M fun c isNew => isModel c ((mem_iff c).mpr (.inl isNew))

/-- The clauses of such a knowledge base and those of the negation of a query that
follows from what was told cannot be true together. -/
theorem IsNullary.not_isSatisfiedBy (nullary : kb.IsNullary told) {query : SurfaceFormula}
    {lowered : Lowered} {signature after : Signature}
    (means : Lowered.Means.{0} kb.signature signature query lowered) {clauses : List Clause}
    (nullaryClauses : NullaryClauses true lowered.close signature clauses after)
    (follows : ∀ N : Structure String String Unit, (∀ formula ∈ told, N.SatisfiesClosure formula) →
      N.SatisfiesClosure query) (truth : Atom → Prop) :
    ¬(kb.store.insertAll clauses).IsSatisfiedBy truth := by
  intro satisfied
  have grows := means.gains.grows.trans nullaryClauses.gains.grows
  have proper := nullaryClauses.gains.proper (means.gains.proper nullary.proper)
  obtain ⟨-, mem_iff, -⟩ := nullary.toIsSound.insertAll grows nullaryClauses.isOver
  have reads := after.byName_reads (after.named truth)
  have toldHolds := nullary.reflects _ _ (reads.of_growsTo grows) fun c old =>
    proper.satisfies_named ((nullary.isOver c old).mono grows) (nullary.noArguments c old)
      (satisfied c ((mem_iff c).mpr (.inr old)))
  have queryHolds := (means.satisfiesClosure_iff
    (reads.of_growsTo nullaryClauses.gains.grows)).mp (follows _ toldHolds)
  refine nullaryClauses.holds _ (fun c isNew => ?_) (fun _ => ()) (Lowered.holds_close queryHolds _)
  exact proper.satisfies_named (nullaryClauses.isOver c isNew) (nullaryClauses.noArguments c isNew)
    (satisfied c ((mem_iff c).mpr (.inl isNew)))

/-- A query without arguments is answered.  It is proven only if it follows from
what was told, and if it follows it is proven unless the search is cut short. -/
theorem IsNullary.ask {query : SurfaceFormula} {result : Except Error (Bool × KnowledgeBase)}
    (nullary : kb.IsNullary told) (unlimited : kb.config.limits = .unlimited)
    (parsed : SurfaceFormula.parse text = .ok query) (isNullary : query.IsNullary)
    (returned : (kb.ask text).Returns result) :
    ∃ proven after, result = .ok (proven, after) ∧
      (proven = true → ∀ N : Structure String String Unit,
        (∀ formula ∈ told, N.SatisfiesClosure formula) → N.SatisfiesClosure query) ∧
      (after.statistics.truncated = false → (∀ N : Structure String String Unit,
        (∀ formula ∈ told, N.SatisfiesClosure formula) → N.SatisfiesClosure query) →
          proven = true) := by
  have lowered :=
    SurfaceFormula.lower_means.{0} kb.signature (SurfaceFormula.isNamed_of_parse parsed)
  obtain ⟨clauses, made, nullaryClauses⟩ :=
    exists_nullaryClauses (lowered.gains.proper nullary.proper) (by simp) true
      (Lowered.everyAtom_close lowered.atoms)
      (everyAtom_foldr_quantified _ _ ((isNullary.lower kb.signature).anyBound _))
  obtain ⟨start, searched, refuted, isResult⟩ := ask_returns parsed made returned
  obtain ⟨begun, outcome, extended, storeRefuted, ended⟩ := refute_returns refuted
  have grows := lowered.gains.grows.trans nullaryClauses.gains.grows
  obtain ⟨-, mem_iff, isOver⟩ := nullary.toIsSound.insertAll grows nullaryClauses.isOver
  have noArguments (c : Clause) (mem : c ∈ kb.store.insertAll clauses) :
      ∀ literal ∈ c.literals, literal.atom.args = [] := by
    rcases (mem_iff c).mp mem with isNew | old
    · exact nullaryClauses.noArguments c isNew
    · exact nullary.noArguments c old
  have ordered :=
    (Planner.orderFor_spec nullary.faithful (kb.store.insertAll clauses) none).1.complete
  obtain ⟨refutation, rfl, decided⟩ :=
    (Store.RunsTo.intro unlimited ordered storeRefuted).isDecidedAs
      (nullary.built.insertAll nullaryClauses.isList)
      (fun c mem => Clause.isGround_of_noArguments (noArguments c mem)) isOver
  rcases ended with ⟨error, isError, -⟩ | ⟨_, after, same, rfl, carries⟩
  · cases isError
  · cases same
    subst isResult
    refine ⟨_, after, rfl, fun proven => ?_, fun whole follows => ?_⟩
    · obtain ⟨-, other, parsedAgain, sound⟩ := nullary.toIsSound.ask returned
      cases parsed.symm.trans parsedAgain
      exact @sound proven Unit
    · have unsatisfiable := nullary.not_isSatisfiedBy lowered nullaryClauses follows
      have refutedStatus := (decided (carries.truncated.symm.trans whole)).1 unsatisfiable
      exact decide_eq_true refutedStatus

end KnowledgeBase

end Entailment.FirstOrder
