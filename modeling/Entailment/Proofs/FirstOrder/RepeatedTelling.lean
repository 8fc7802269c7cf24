import Entailment.Proofs.FirstOrder.CanonicalConversation
import Entailment.Proofs.FirstOrder.FunctionNames
import Entailment.Proofs.Runs

/-!
# Telling a formula again

When a formula is told again, its variables get new numbers and its symbols are found under the old
ones.  The variables keep their order, so that the clauses are the same once they are renamed onto
the canonical variables, which are the old ones too.  Only a Skolem function would be a new symbol.
So a formula whose negation normal form has no existential quantifier adds no clause when it has
been told before, whatever was told and asked in between.
-/

namespace Entailment

/-! ## Existential quantifiers -/

namespace Formula

variable {β δ α γ : Type}

theorem hasExistential_map (f : β → δ) (g : α → γ) (formula : Formula β α) :
    (formula.map f g).hasExistential = formula.hasExistential := by
  induction formula with
  | truth | atom => rfl
  | not body ih => exact ih
  | binary connective left right leftIh rightIh =>
      simp only [map, hasExistential, leftIh, rightIh]
  | quantified quantifier binder body ih => simp only [map, hasExistential, ih]

/-- A formula without its variables and atoms. -/
abbrev shape (formula : Formula β α) : Formula Unit Unit :=
  formula.map (fun _ => ()) fun _ => ()

/-- Whether the negation normal form has existential quantifiers depends on the shape only. -/
theorem hasExistential_eq_of_shape {invert : Bool} {first normal : Formula β α}
    {second otherNormal : Formula δ γ} (same : first.shape = second.shape)
    (normalized : first.negationNormal invert = .ok normal)
    (otherNormalized : second.negationNormal invert = .ok otherNormal) :
    normal.hasExistential = otherNormal.hasExistential := by
  have shapes := congrArg (negationNormal invert) same
  rw [negationNormal_map, negationNormal_map, normalized, otherNormalized] at shapes
  rw [← hasExistential_map (fun _ => ()) (fun _ => ()) normal, Except.ok.inj shapes,
    hasExistential_map]

end Formula

namespace FirstOrder

open Monitored

theorem Lowering.shape_lowerFormula (bound : List (String × Variable)) (formula : SurfaceFormula)
    (state : Lowering) : (lowerFormula bound formula state).1.shape = formula.shape := by
  induction formula generalizing bound state with
  | truth | atom => rfl
  | not body ih => exact congrArg Formula.not (ih bound state)
  | binary connective left right leftIh rightIh =>
      exact congrArg₂ (Formula.binary connective) (leftIh bound state) (rightIh bound _)
  | quantified quantifier name body ih =>
      exact congrArg (Formula.quantified quantifier ()) (ih ((name, _) :: bound) _)

/-- Without existential quantifiers there are no Skolem functions. -/
theorem functions_clausesOf {invert : Bool} {free : List Variable}
    {formula normal : Formula Variable Atom} {signature : Signature}
    (normalized : formula.negationNormal invert = .ok normal)
    (universal : normal.hasExistential = false) :
    (clausesOf invert free formula signature).signature.functions = signature.functions := by
  refine @clausesOf_keeps (fun extended => extended.functions = signature.functions)
    (fun _ _ gains same => gains.functions.trans same) _ _ _ _
    (fun otherNormal otherNormalized existential => ?_) rfl
  rw [Except.ok.inj (otherNormalized.symm.trans normalized), universal] at existential
  cases existential

/-! ## The clauses of a formula over two signatures -/

/-- The clauses of a written formula, with the signature they are over. -/
def SurfaceFormula.clausified (formula : SurfaceFormula) (signature : Signature) : Clausification :=
  (formula.lower signature).1.clausify (formula.lower signature).2

/-- Numbers from `start` on are moved up to `target`. -/
def moveUp (start target index : Nat) : Nat :=
  if index < start then index else index - start + target

theorem strictMono_moveUp {start target : Nat} (up : start ≤ target) :
    StrictMono (moveUp start target) := by
  intro first second less
  unfold moveUp
  split <;> split <;> omega

theorem moveUp_of_lt {start target index : Nat} (below : index < start) :
    moveUp start target index = index := if_pos below

theorem moveUp_add (start target count : Nat) :
    moveUp start target (start + count) = target + count := by
  unfold moveUp
  split <;> omega

namespace SurfaceFormula

variable {formula : SurfaceFormula} {signature later : Signature} {clauses : List Clause}

/-- What the clauses of a written formula over a proper signature are over, and what the signature
grows to on the way. -/
structure HasClauses (formula : SurfaceFormula) (signature : Signature) (clauses : List Clause) :
    Prop where
  made : (formula.clausified signature).clauses = .ok clauses
  isOver : ∀ c ∈ clauses, c.IsOver (formula.clausified signature).signature
  lowers : signature.GrowsTo (formula.lower signature).2
  loweredProper : (formula.lower signature).2.IsProper
  grows : (formula.lower signature).2.GrowsTo (formula.clausified signature).signature
  proper : (formula.clausified signature).signature.IsProper

theorem exists_hasClauses (named : formula.IsNamed) (proper : signature.IsProper) :
    ∃ clauses, formula.HasClauses signature clauses := by
  have lowered := SurfaceFormula.lower_means.{0} signature named
  have loweredProper := lowered.gains.proper proper
  obtain ⟨_, _, clauses, -, -, made, clausifies⟩ :=
    clausesOf_spec.{0} (fun _ _ written => written.toIsScoped) loweredProper.hasCanonical
      lowered.freeOver false lowered.atoms
  exact ⟨clauses, made, clausifies.isOver, lowered.gains.grows, loweredProper,
    clausifies.gains.grows, clausifies.gains.proper loweredProper⟩

/-- Without existential quantifiers, the functions of the clauses are those of the formula. -/
theorem functions_clausified (signature : Signature) {normal : SurfaceFormula}
    (normalized : formula.negationNormal false = .ok normal)
    (universal : normal.hasExistential = false) :
    (formula.clausified signature).signature.functions =
      (formula.lower signature).2.functions := by
  obtain ⟨loweredNormal, loweredNormalized, -⟩ :=
    Formula.negationNormal_spec.{0} false (formula.lower signature).1.formula
  have sameShape : (formula.lower signature).1.formula.shape = formula.shape :=
    Lowering.shape_lowerFormula [] formula ⟨signature, []⟩
  refine functions_clausesOf loweredNormalized ?_
  rw [Formula.hasExistential_eq_of_shape sameShape loweredNormalized normalized, universal]

/-- Without existential quantifiers, a formula has the same clauses over a signature that has grown
since. -/
theorem HasClauses.again (first : formula.HasClauses signature clauses) (named : formula.IsNamed)
    {normal : SurfaceFormula} (normalized : formula.negationNormal false = .ok normal)
    (universal : normal.hasExistential = false)
    (grows : (formula.clausified signature).signature.GrowsTo later)
    (laterProper : later.IsProper) : formula.HasClauses later clauses := by
  obtain ⟨others, second⟩ := exists_hasClauses named laterProper
  have between := (first.grows.trans grows).trans second.lowers
  have upVars := (first.lowers.trans (first.grows.trans grows)).varsSize
  -- The variables of the formula are moved up, and so would be Skolem functions.
  let ρ : Renumbering := .ofPlaces (strictMono_moveUp upVars)
    (strictMono_moveUp between.functionsSize) strictMono_id
  have keeps : (formula.lower signature).2.KeepsNames ρ (formula.lower later).2 := by
    refine ⟨fun f bound => ?_, fun p bound => ?_⟩
    · have same : ρ.onFunction f = f := congrArg FunctionSymbol.mk (moveUp_of_lt bound)
      rw [same]
      exact ⟨Nat.lt_of_lt_of_le bound between.functionsSize, between.functionInfo bound⟩
    · exact ⟨Nat.lt_of_lt_of_le bound between.predicatesSize, between.predicateInfo bound⟩
  have nextVariables : signature.VariablesInStep ρ later :=
    fun count => congrArg Variable.mk (moveUp_add _ _ count)
  have nextFunctions : (formula.lower signature).2.FunctionsInStep ρ (formula.lower later).2 :=
    fun count => congrArg FunctionSymbol.mk (moveUp_add _ _ count)
  obtain ⟨sameLowered, loweredNext⟩ :=
    SurfaceFormula.lower_eq_renumber named nextVariables keeps second.loweredProper
  have sameFree : (formula.lower later).1.freeVariables =
      (formula.lower signature).1.freeVariables.map ρ.onVariable := by
    rw [sameLowered, Lowered.freeVariables, Lowered.freeVariables, List.map_map, List.map_map]
    rfl
  have proper := first.proper
  obtain ⟨originals, unrenamed, onFirst⟩ := exists_onCanonical first.made proper rfl
  have laterUnrenamed :
      (unrenamedClauses false (formula.lower later).1.freeVariables (formula.lower later).1.formula
        (formula.lower later).2).1 = .ok (originals.map (Clause.renumber ρ)) := by
    rw [sameFree, sameLowered, unrenamedClauses_renumber loweredNext nextFunctions, unrenamed]
    rfl
  have onSecond := clauses_eq_of_unrenamedClauses (isIncreasing_of_unrenamedClauses unrenamed)
    laterUnrenamed second.made second.proper rfl (strictMono_moveUp between.functionsSize)
    strictMono_id rfl rfl
  -- There are no Skolem functions, so that all functions of the clauses are old.
  have sameFunctions := functions_clausified signature normalized universal
  have agrees := Renumbering.onCanonical_agreesOn (strictMono_moveUp between.functionsSize)
    strictMono_id (grows.trans (second.lowers.trans second.grows)) proper second.proper
    (fun index bound => moveUp_of_lt (sameFunctions ▸ bound)) fun _ _ => rfl
  have same : others = clauses := by
    rw [onSecond, onFirst]
    refine List.map_congr_left fun c mem => Clause.renumber_eq_of_agreesOn agrees ?_
    refine first.isOver _ ?_
    rw [onFirst]
    exact List.mem_map_of_mem mem
  exact same ▸ second

end SurfaceFormula

/-! ## Conversations -/

/-- Inserting clauses that are in a store changes nothing. -/
theorem Store.Consistent.insertAll_of_mem {store : Store} (consistent : store.Consistent)
    {clauses : List Clause} (inStore : ∀ c ∈ clauses, c ∈ store) :
    store.insertAll clauses = store := by
  induction clauses with
  | nil => rfl
  | cons c rest ih =>
      obtain ⟨first, others⟩ := List.forall_mem_cons.mp inStore
      have unchanged : (store.insert c).2 = store := by
        rw [Store.insert, if_pos (consistent.contains_iff.mpr first)]
      rw [Store.insertAll, List.foldl_cons, unchanged]
      exact ih others

namespace KnowledgeBase

variable {kb after : KnowledgeBase} {told : List SurfaceFormula} {text : String}
  {formula : SurfaceFormula}

/-- The clauses that a formula had over an earlier signature are in the store. -/
structure Retains (formula : SurfaceFormula) (kb : KnowledgeBase) : Prop where
  named : formula.IsNamed
  exists_earlier : ∃ signature clauses, formula.HasClauses signature clauses ∧
    (formula.clausified signature).signature.GrowsTo kb.signature ∧ ∀ c ∈ clauses, c ∈ kb.store

theorem Retains.mono (retains : kb.Retains formula) (grows : kb.signature.GrowsTo after.signature)
    (stays : ∀ c ∈ kb.store, c ∈ after.store) : after.Retains formula := by
  obtain ⟨named, signature, clauses, hasClauses, since, inStore⟩ := retains
  exact ⟨named, signature, clauses, hasClauses, since.trans grows,
    fun c mem => stays c (inStore c mem)⟩

/-- A formula that is told is retained from then on. -/
theorem retains_of_tell (orderly : kb.IsOrderly) (consistent : kb.store.Consistent)
    (parsed : SurfaceFormula.parse text = .ok formula)
    (returned : (kb.tell text).Returns (.ok after)) :
    after.Retains formula ∧ kb.signature.GrowsTo after.signature ∧
      ∀ c ∈ kb.store, c ∈ after.store := by
  obtain ⟨_, clauses, otherParsed, made, signature, store, -⟩ := exists_of_tell returned
  cases otherParsed.symm.trans parsed
  have named := SurfaceFormula.isNamed_of_parse parsed
  obtain ⟨others, hasClauses⟩ := SurfaceFormula.exists_hasClauses named orderly.proper
  obtain rfl : others = clauses := Except.ok.inj (hasClauses.made.symm.trans made)
  have members := (consistent.insertAll others).2
  refine ⟨⟨named, kb.signature, others, hasClauses, ?_, fun c mem => ?_⟩, ?_, fun c mem => ?_⟩
  · rw [signature]
    exact .refl _
  · rw [store, members]
    exact .inl mem
  · rw [signature]
    exact hasClauses.lowers.trans hasClauses.grows
  · rw [store, members]
    exact .inr mem

/-- Telling a retained formula without existential quantifiers succeeds and adds no clause. -/
theorem Retains.tell_again (retains : kb.Retains formula) (orderly : kb.IsOrderly)
    (consistent : kb.store.Consistent) (parsed : SurfaceFormula.parse text = .ok formula)
    {normal : SurfaceFormula} (normalized : formula.negationNormal false = .ok normal)
    (universal : normal.hasExistential = false) {result : Except Error KnowledgeBase}
    (returned : (kb.tell text).Returns result) :
    ∃ after, result = .ok after ∧ after.store = kb.store := by
  obtain ⟨named, signature, clauses, hasClauses, since, inStore⟩ := retains
  have again := hasClauses.again named normalized universal since orderly.proper
  have made : ((formula.lower kb.signature).1.clausify (formula.lower kb.signature).2).clauses =
      .ok clauses := again.made
  simp only [tell, parsed, returns_bind, returns_tellAll, true_and, exists_const, made,
    returns_tell, returns_pure] at returned
  exact ⟨_, returned.symm, consistent.insertAll_of_mem inStore⟩

end KnowledgeBase

namespace Conversation

variable {conversation after : Conversation}

/-- A step retains the formulas that have been told. -/
theorem Step.retains (step : conversation.Step after) (kept : conversation.IsKept)
    (retains : ∀ formula ∈ conversation.told, conversation.kb.Retains formula) :
    ∀ formula ∈ after.told, after.kb.Retains formula := by
  have onlyAsked {kb : KnowledgeBase} (asked : conversation.kb.OnlyAsked kb) :
      ∀ formula ∈ conversation.told, kb.Retains formula :=
    fun formula mem => (retains formula mem).mono asked.grows fun c => asked.store ▸ id
  cases step with
  | failed => exact retains
  | tell parsed told =>
      obtain ⟨new, grows, stays⟩ :=
        KnowledgeBase.retains_of_tell kept.orderly kept.sound.consistent parsed told
      intro other mem
      rcases List.mem_append.mp mem with old | isNew
      · exact (retains other old).mono grows stays
      · rw [List.mem_singleton.mp isNew]
        exact new
  | ask asked => exact onlyAsked (kept.sound.onlyAsked_of_ask asked)
  | askBindings asked => exact onlyAsked (kept.sound.onlyAsked_of_askBindings asked)
  | configure config =>
      exact fun formula mem => (retains formula mem).mono (.refl _) fun _ mem => mem

theorem retains_answerAll {config : Config} {requests : List Request}
    (reached : (answerAll requests (.start config)).Returns conversation) :
    conversation.IsKept ∧ ∀ formula ∈ conversation.told, conversation.kb.Retains formula :=
  @keeps_answerAll
    (fun conversation => conversation.IsKept ∧
      ∀ formula ∈ conversation.told, conversation.kb.Retains formula)
    (fun _ _ kept step => ⟨kept.1.step step, step.retains kept.1 kept.2⟩) _ _ _
    ⟨isKept_start config, nofun⟩ reached

end Conversation

/-- Whatever has been told and asked, and whatever the settings are: a text whose formula was
accepted before and has no existential quantifier in its negation normal form is accepted again, and
the store is the same store. -/
theorem tell_again_keeps_store (config : Config) (requests : List Request)
    {conversation : Conversation}
    (reached : (Conversation.answerAll requests (.start config)).Returns conversation)
    {text : String} {formula normal : SurfaceFormula}
    (parsed : SurfaceFormula.parse text = .ok formula) (accepted : formula ∈ conversation.told)
    (normalized : formula.negationNormal false = .ok normal)
    (universal : normal.hasExistential = false) :
    (conversation.kb.tell text).Always fun result =>
      ∃ after, result = .ok after ∧ after.store = conversation.kb.store := by
  obtain ⟨kept, retains⟩ := Conversation.retains_answerAll reached
  refine (Monitored.always_iff _).mpr fun result returned => ?_
  exact (retains formula accepted).tell_again kept.orderly kept.sound.consistent parsed normalized
    universal returned

/-- The formula of `!A ?x (p(?x) <=> q(f(?x)))`. -/
def equivalentPredicates : SurfaceFormula :=
  .quantified .universal "x" (.binary .equiv (.atom (.predicate "p" [.var "x"]))
    (.atom (.predicate "q" [.app "f" [.var "x"]])))

/-- The negation normal form of the formula. -/
def equivalentPredicatesNormal : SurfaceFormula :=
  .quantified .universal "x" (.binary .and
    (.binary .or (.not (.atom (.predicate "p" [.var "x"])))
      (.atom (.predicate "q" [.app "f" [.var "x"]])))
    (.binary .or (.not (.atom (.predicate "q" [.app "f" [.var "x"]])))
      (.atom (.predicate "p" [.var "x"]))))

/-- An equivalence is told, two queries are asked and a Skolem function is made in between, and the
equivalence is told again. -/
theorem tell_again_keeps_store_equivalence :
    ∃ conversation, (Conversation.answerAll
        [.tell "!A ?x (p(?x) <=> q(f(?x)))", .ask "!E ?y q(?y)", .tell "!E ?z p(?z)",
          .askBindings "p(?v)"] (.start .default)).Returns conversation ∧
      SurfaceFormula.parse "!A ?x (p(?x) <=> q(f(?x)))" = .ok equivalentPredicates ∧
      equivalentPredicates ∈ conversation.told ∧
      equivalentPredicates.negationNormal false = .ok equivalentPredicatesNormal ∧
      equivalentPredicatesNormal.hasExistential = false ∧
      (conversation.kb.tell "!A ?x (p(?x) <=> q(f(?x)))").Always fun result =>
        ∃ after, result = .ok after ∧ after.store = conversation.kb.store := by
  obtain ⟨conversation, done, reached⟩ := exists_run (Conversation.answerAll
    [.tell "!A ?x (p(?x) <=> q(f(?x)))", .ask "!E ?y q(?y)", .tell "!E ?z p(?z)",
      .askBindings "p(?v)"] (.start .default))
  have parsed : SurfaceFormula.parse "!A ?x (p(?x) <=> q(f(?x)))" = .ok equivalentPredicates := by
    cbv
  have accepted : conversation.told = [equivalentPredicates,
      .quantified .existential "z" (.atom (.predicate "p" [.var "z"]))] := by
    rw [← done]
    cbv
  have accepts : equivalentPredicates ∈ conversation.told := by simp [accepted]
  exact ⟨conversation, reached, parsed, accepts, rfl, rfl,
    tell_again_keeps_store .default _ reached parsed accepts rfl rfl⟩

end FirstOrder

end Entailment
