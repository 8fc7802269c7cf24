import Entailment.Proofs.FirstOrder.ClausifyMeaning
import Entailment.Proofs.FirstOrder.UnsatisfiableStores

/-!
# Clausification is conservative

The clauses of a formula say what the formula says, but for the Skolem functions
that were created on the way.  A model of the clauses is a model of the formula:
renaming keeps different variables different, leaving out tautologies loses
nothing, and Skolemization reflects truth.  A model of the formula becomes a model
of the clauses when the created functions, and nothing else, are interpreted anew.
-/

namespace Entailment.FirstOrder

universe u

variable {D : Type u} {signature : Signature} {M : Model D} {clauses : List Clause}

/-! ## Renamed clauses -/

/-- A clause depends only on the values of its variables. -/
theorem Clause.holds_congr {M : Model D} {ρ ρ' : Variable → D} {c : Clause}
    (same : ∀ v ∈ c.vars, ρ v = ρ' v) (holds : c.Holds M ρ) : c.Holds M ρ' := by
  obtain ⟨literal, mem, literalHolds⟩ := holds
  refine ⟨literal, mem, ?_⟩
  have values : literal.atom.args.map (Term.value M ρ) = literal.atom.args.map (Term.value M ρ') :=
    List.map_congr_left fun t tMem => t.value_congr M fun v vMem =>
      same v (mem_vars.mpr ⟨literal, mem, t, tMem, vMem⟩)
  obtain ⟨⟨p, args⟩, sign⟩ := literal
  cases sign with
  | positive =>
      change M.predicate p (args.map (Term.value M ρ'))
      rw [← values]
      exact literalHolds
  | negative =>
      change ¬M.predicate p (args.map (Term.value M ρ'))
      rw [← values]
      exact literalHolds

/-- A clause is satisfied when the clause it is renamed to is satisfied. -/
theorem Structure.Satisfies.of_renameFrom {next : Nat} {c : Clause} (proper : signature.IsProper)
    (enough : next + c.vars.length ≤ signature.canonical.size)
    (satisfied : M.Satisfies (c.renameFrom signature next)) : M.Satisfies c := by
  intro ρ
  obtain ⟨ρ', carried⟩ := proper.exists_carried c.nodup_vars enough ρ
  have holds := (Clause.holds_apply M ρ' _ c).mp (satisfied ρ')
  refine Clause.holds_congr (fun v mem => ?_) holds
  obtain ⟨place, -, -, image⟩ := signature.exists_place_of_mem next c.nodup_vars mem
  rw [Substitution.valuation, image, Term.value_var]
  exact carried v mem _ image

/-- The same for some clauses renamed one after the other. -/
theorem Structure.satisfies_of_canonicalAll (proper : signature.IsProper)
    (satisfied : ∀ d ∈ (Clause.canonicalAll clauses signature).1, M.Satisfies d) :
    ∀ c ∈ clauses, M.Satisfies c := by
  induction clauses generalizing signature with
  | nil => simp
  | cons first rest ih =>
      obtain ⟨gains, enough⟩ := signature.reserveCanonical_spec first.vars.length
      have proper := gains.proper proper
      intro c mem
      rcases List.mem_cons.mp mem with rfl | inRest
      · have renamed := satisfied _ (List.mem_cons_self ..)
        exact renamed.of_renameFrom proper (by omega)
      · exact ih proper (fun d dMem => satisfied d (List.mem_cons_of_mem _ dMem)) c inRest

/-! ## Clauses of a formula -/

/-- What making the clauses of a formula in negation normal form created, and that
the formula is true where the clauses are. -/
structure Clausification.Reflects (normal : Formula Variable Atom) (signature : Signature)
    (made : Clausification) (clauses : List Clause) : Prop where
  predicates : made.signature.predicates = signature.predicates
  created : ∀ f, f ∈ made.witnesses.map Prod.snd ↔
    signature.functions.size ≤ f.index ∧ f.index < made.signature.functions.size
  holds : ∀ ⦃D : Type u⦄ (M : Model D), (∀ c ∈ clauses, M.Satisfies c) →
    ∀ ρ, formulaHolds M ρ normal

theorem clausesOfNormal_reflects {property : List Variable → Atom → Prop} {free : List Variable}
    (isScoped : ∀ binders a, property binders a → a.IsScoped signature free binders)
    (proper : signature.IsProper) (freeOver : ∀ v ∈ free, v.index < signature.vars.size)
    {normal : Formula Variable Atom} (isNormal : normal.IsNegationNormal)
    (atoms : normal.EveryAtom property [])
    (made : (clausesOfNormal free normal signature).clauses = .ok clauses) :
    (clausesOfNormal free normal signature).Reflects.{u} normal signature clauses := by
  obtain ⟨result, state, done, skolemized, reflects⟩ :=
    skolemize_spec.{u} isScoped freeOver isNormal atoms
  obtain ⟨disjunctions, distributed, form⟩ :=
    Formula.distribute_spec.{u} skolemized.isNormal skolemized.isQuantifierFree
  have properAfter := skolemized.gains.proper proper
  obtain ⟨renamed, -⟩ := Clause.canonicalAll_spec
    (skolemized.isOver_disjunctions isScoped form) properAfter.hasCanonical
  simp only [clausesOfNormal, done, distributed, Except.ok.injEq] at made ⊢
  constructor
  · exact renamed.predicates.trans reflects.predicates
  · intro f
    simp only [List.map_reverse, List.mem_reverse]
    rw [reflects.created, renamed.functions]
    simp
  · intro D M satisfied ρ
    have originals := M.satisfies_of_canonicalAll properAfter (made ▸ satisfied)
    have holds := reflects.holds M ρ fun ρ' _ => ?_
    · exact holds
    · refine (form.holds_iff (fun ρ a => Atom.Holds M ρ a) ρ').mp ?_
      refine (ClauseSet.holds_withoutTautologies _ form.isIncreasing).mp fun disjunction mem => ?_
      obtain ⟨literal, literalMem, literalHolds⟩ :=
        originals _ (List.mem_map_of_mem mem) ρ'
      exact ⟨literal, Sorted.mem_ofList.mp literalMem, literalHolds⟩

/-- A model of the clauses of a formula, or of its negation, is a model of the
formula, or of its negation. -/
theorem clausesOf_reflects {property : List Variable → Atom → Prop} {free : List Variable}
    (isScoped : ∀ binders a, property binders a → a.IsScoped signature free binders)
    (proper : signature.IsProper) (freeOver : ∀ v ∈ free, v.index < signature.vars.size)
    {invert : Bool} {formula normal : Formula Variable Atom}
    (normalized : formula.negationNormal invert = .ok normal)
    (atoms : formula.EveryAtom property [])
    (made : (clausesOf invert free formula signature).clauses = .ok clauses) :
    (clausesOf invert free formula signature).Reflects.{u} normal signature clauses := by
  obtain ⟨_, done, form⟩ := Formula.negationNormal_spec.{u} invert formula
  cases normalized.symm.trans done
  simp only [clausesOf, normalized] at made ⊢
  exact clausesOfNormal_reflects isScoped proper freeOver form.isNormal (form.everyAtom atoms) made

/-! ## Changing what was created -/

/-- Two structures interpret all predicates in the same way, and all functions but
some. -/
structure Structure.DiffersOnlyOn (functions : List FunctionSymbol) (M' M : Model D) : Prop where
  predicate : M'.predicate = M.predicate
  function : ∀ f ∉ functions, M'.function f = M.function f

/-- A structure with some functions interpreted as in another one. -/
def Structure.withFunctions (M : Model D) (functions : List FunctionSymbol) (M' : Model D) :
    Model D where
  function f := if f ∈ functions then M'.function f else M.function f
  predicate := M.predicate

theorem Structure.withFunctions_differsOnlyOn (M : Model D) (functions : List FunctionSymbol)
    (M' : Model D) : (M.withFunctions functions M').DiffersOnlyOn functions M where
  predicate := rfl
  function _ notMem := if_neg notMem

/-- A structure that agrees on a signature can be replaced, over the signature with
the created functions, by one that differs on the created functions only. -/
theorem Structure.withFunctions_agreesOn {M M' : Model D} {signature after : Signature}
    {functions : List FunctionSymbol} (agree : M'.AgreesOn signature M)
    (samePredicates : after.predicates = signature.predicates)
    (created : ∀ f, f ∈ functions ↔
      signature.functions.size ≤ f.index ∧ f.index < after.functions.size) :
    (M.withFunctions functions M').AgreesOn after M' where
  function f bound := by
    by_cases isNew : f ∈ functions
    · exact if_pos isNew
    · have old : f.index < signature.functions.size := by
        rw [created] at isNew
        omega
      rw [agree.function f old]
      exact if_neg isNew
  predicate p bound := by
    rw [samePredicates] at bound
    exact (agree.predicate p bound).symm

/-- Making the clauses of a formula over a signature succeeds and is conservative.
The functions it creates are not in the signature.  Every structure that satisfies
the clauses satisfies the universal closure of the formula, and every structure
that satisfies the universal closure of the formula satisfies the clauses once the
created functions, and nothing else, are interpreted anew. -/
theorem clausify_isConservative {lowered : Lowered} {signature : Signature}
    (built : signature.Built)
    (freeOver : ∀ v ∈ lowered.freeVariables, v.index < signature.vars.size)
    (atoms : lowered.formula.EveryAtom
      (fun binders a => a.IsScoped signature lowered.freeVariables binders) []) :
    ∃ clauses created, (lowered.clausify signature).clauses = .ok clauses ∧
      (lowered.clausify signature).witnesses.map Prod.snd = created ∧
      (∀ f ∈ created, signature.functions.size ≤ f.index) ∧
      (∀ ⦃D : Type u⦄ (M : Model D), (∀ c ∈ clauses, M.Satisfies c) →
        ∀ ρ, formulaHolds M ρ lowered.formula) ∧
      ∀ ⦃D : Type u⦄ (M : Model D), (∀ ρ, formulaHolds M ρ lowered.formula) →
        ∃ M' : Model D, M'.DiffersOnlyOn created M ∧ ∀ c ∈ clauses, M'.Satisfies c := by
  have proper := built.isProper
  obtain ⟨normal, disjunctions, clauses, normalized, sameTruth, made, clausifies⟩ :=
    clausesOf_spec.{u} (fun _ _ isScoped => isScoped) proper.hasCanonical freeOver false atoms
  have reflects := clausesOf_reflects.{u} (fun _ _ isScoped => isScoped) proper freeOver normalized
    atoms made
  refine ⟨clauses, _, made, rfl, fun f mem => ((reflects.created f).mp mem).1, ?_, ?_⟩
  · intro D M satisfied ρ
    exact (sameTruth M ρ).mp (reflects.holds M satisfied ρ)
  · intro D M holds
    obtain ⟨M', agree, satisfied⟩ := clausifies.model M fun ρ => (sameTruth M ρ).mpr (holds ρ)
    refine ⟨M.withFunctions _ M', M.withFunctions_differsOnlyOn _ M', fun c mem => ?_⟩
    have agreeAfter := Structure.withFunctions_agreesOn agree reflects.predicates reflects.created
    exact ((clausifies.isOver c mem).satisfies_iff agreeAfter).mpr (satisfied c mem)

/-- The variables `x` and `z` and the predicates `p` and `q`. -/
def Signature.shadowing : Signature :=
  (((Signature.empty.addVariable "x").2.addVariable "z").2.internPredicate "p" 1).2.internPredicate
    "q" 2 |>.2

/-- The formula `∀x. (p(x) <=> ∃x. q(x, z))`, in which one variable is bound
twice. -/
def Lowered.shadowing : Lowered where
  formula := .quantified .universal ⟨0⟩ (.binary .equiv (.atom ⟨⟨0⟩, [.var ⟨0⟩]⟩)
    (.quantified .existential ⟨0⟩ (.atom ⟨⟨1⟩, [.var ⟨0⟩, .var ⟨1⟩]⟩)))
  free := [("z", ⟨1⟩)]

/-- A model of `∀x. (p(x) <=> ∃x. q(x, z))` becomes a model of its clauses by
interpreting one function. -/
theorem clausify_isConservative_shadowing :
    ∃ clauses, (Lowered.shadowing.clausify .shadowing).clauses = .ok clauses ∧
      clauses.length = 2 ∧
      (∀ ⦃D : Type u⦄ (M : Model D), (∀ c ∈ clauses, M.Satisfies c) →
        ∀ ρ, formulaHolds M ρ Lowered.shadowing.formula) ∧
      ∀ ⦃D : Type u⦄ (M : Model D), (∀ ρ, formulaHolds M ρ Lowered.shadowing.formula) →
        ∃ M' : Model D, M'.DiffersOnlyOn [⟨0⟩] M ∧ ∀ c ∈ clauses, M'.Satisfies c := by
  have known : Signature.shadowing = ⟨#["x", "z"], #[], #[⟨"p", 1⟩, ⟨"q", 2⟩], #[], 0⟩ := by cbv
  have built : Signature.shadowing.Built :=
    (((Signature.Built.empty.addVariable _).addVariable _).internPredicate _ _).internPredicate _ _
  have freeOver : ∀ v ∈ Lowered.shadowing.freeVariables,
      v.index < Signature.shadowing.vars.size := by
    rw [known]
    decide
  have atoms : Lowered.shadowing.formula.EveryAtom
      (fun binders a => a.IsScoped .shadowing Lowered.shadowing.freeVariables binders) [] := by
    rw [known]
    refine ⟨⟨⟨by decide, rfl, by simp⟩, by simp⟩, ⟨by decide, rfl, by simp⟩, ?_⟩
    simp [Lowered.shadowing, Lowered.freeVariables]
  obtain ⟨clauses, created, made, isCreated, -, toFormula, toClauses⟩ :=
    clausify_isConservative.{u} built freeOver atoms
  have evaluated : (Lowered.shadowing.clausify .shadowing).clauses.toOption.map List.length =
      some 2 ∧ (Lowered.shadowing.clausify .shadowing).witnesses.map Prod.snd = [⟨0⟩] := by
    constructor
    all_goals cbv
  obtain rfl : [⟨0⟩] = created := evaluated.2.symm.trans isCreated
  refine ⟨clauses, made, ?_, toFormula, toClauses⟩
  have length := evaluated.1
  rw [made] at length
  exact Option.some.inj length

end Entailment.FirstOrder
