import Entailment.Proofs.FirstOrder.CanonicalRenumbering
import Entailment.Proofs.FirstOrder.OrderlyConversation
import Entailment.Proofs.FirstOrder.RenumberedSearch

/-!
# What queries leave behind

The clauses that a knowledge base was told are on canonical variables, which no later
request changes.  A query leaves the clauses and the settings alone.  What it does
leave behind are names in the signature and an order in the planner.
-/

namespace Entailment.FirstOrder

open Monitored

theorem Store.insertAll_append (store : Store) (first second : List Clause) :
    store.insertAll (first ++ second) = (store.insertAll first).insertAll second :=
  List.foldl_append

namespace KnowledgeBase

variable {told : List SurfaceFormula} {kb after : KnowledgeBase} {text : String}
variable {clauses : List Clause}

/-! ## Clauses on canonical variables -/

/-- Some clauses on the variables `0, 1, …` stand for the clauses of a knowledge base:
these are the former on canonical variables, inserted one after the other. -/
structure Represents (clauses : List Clause) (kb : KnowledgeBase) : Prop where
  proper : kb.signature.IsProper
  store : kb.store = Store.empty.insertAll
    (clauses.map (Clause.renumber (.onCanonical proper strictMono_id strictMono_id)))

theorem represents_empty (config : Config) : Represents [] (empty config) :=
  ⟨Signature.isProper_empty, rfl⟩

/-- The clauses are represented over a grown signature as well, where the places of
the old symbols are kept. -/
theorem Represents.store_eq (represents : Represents clauses kb) (sound : IsSound.{0} told kb)
    {extended : Signature} (grows : kb.signature.GrowsTo extended) (proper : extended.IsProper)
    {functions predicates : Nat → Nat} (onFunctions : StrictMono functions)
    (onPredicates : StrictMono predicates)
    (keepsFunctions : ∀ index < kb.signature.functions.size, functions index = index)
    (keepsPredicates : ∀ index < kb.signature.predicates.size, predicates index = index) :
    kb.store = Store.empty.insertAll
      (clauses.map (Clause.renumber (.onCanonical proper onFunctions onPredicates))) := by
  have agrees := Renumbering.onCanonical_agreesOn onFunctions onPredicates grows represents.proper
    proper keepsFunctions keepsPredicates
  refine represents.store.trans (congrArg (Store.empty.insertAll ·) ?_)
  refine List.map_congr_left fun c mem => ?_
  have inStore : c.renumber (.onCanonical represents.proper strictMono_id strictMono_id) ∈
      kb.store := by
    rw [represents.store, (Store.consistent_empty.insertAll _).2]
    exact .inl (List.mem_map_of_mem mem)
  exact (Clause.renumber_eq_of_agreesOn agrees (sound.isOver _ inStore)).symm

/-! ## Telling -/

theorem Represents.tell (represents : Represents clauses kb) (sound : IsSound.{0} told kb)
    (orderly : kb.IsOrderly) (returned : (kb.tell text).Returns (.ok after)) :
    ∃ added, Represents (clauses ++ added) after := by
  obtain ⟨formula, made, parsed, isMade, signature, store, -, -⟩ := exists_of_tell returned
  have proper := (orderly.tell sound returned).proper
  obtain ⟨_, lowers, clausifies⟩ := sound.exists_gains_of_tell returned
  have grows := lowers.grows.trans clausifies.grows
  obtain ⟨originals, -, added⟩ := exists_onCanonical isMade proper signature
  have old := represents.store_eq sound grows proper strictMono_id strictMono_id
    (fun _ _ => rfl) fun _ _ => rfl
  refine ⟨(Clause.canonicalAll originals .empty).1, proper, ?_⟩
  rw [store, added, List.map_append, Store.insertAll_append, ← old]

/-! ## Asking -/

/-- What a query leaves behind: the same clauses and settings, over a grown
signature. -/
structure OnlyAsked (kb after : KnowledgeBase) : Prop where
  store : after.store = kb.store
  config : after.config = kb.config
  grows : kb.signature.GrowsTo after.signature

theorem OnlyAsked.refl (kb : KnowledgeBase) : kb.OnlyAsked kb := ⟨rfl, rfl, .refl _⟩

theorem OnlyAsked.trans {last : KnowledgeBase} (first : kb.OnlyAsked after)
    (second : after.OnlyAsked last) : kb.OnlyAsked last :=
  ⟨second.store.trans first.store, second.config.trans first.config,
    first.grows.trans second.grows⟩

theorem IsReady.onlyAsked {signature : Signature} (ready : kb.IsReady clauses signature)
    {start : Duration} {mode : ProofMode} {query : Option AnswerQuery} {refutation : Refutation}
    (returned : (kb.refute start mode query (kb.store.insertAll clauses) signature).Returns (.ok
      (refutation, after))) : kb.OnlyAsked after := by
  obtain ⟨gains, carries⟩ := ready.gains returned
  exact ⟨carries.store, carries.config, ready.grows.trans gains.grows⟩

theorem IsSound.onlyAsked_of_ask (sound : IsSound.{0} told kb) {proven : Bool}
    (returned : (kb.ask text).Returns (.ok (proven, after))) : kb.OnlyAsked after := by
  obtain ⟨_, _, _, _, ready, refuted⟩ := sound.exists_ready_of_ask returned
  exact ready.onlyAsked refuted

theorem IsSound.onlyAsked_of_askBindings (sound : IsSound.{0} told kb) {answers : Answers}
    (returned : (kb.askBindings text).Returns (.ok (answers, after))) : kb.OnlyAsked after := by
  obtain ⟨_, _, _, _, _, ready, refuted⟩ := sound.exists_ready_of_askBindings returned
  exact ready.onlyAsked refuted

end KnowledgeBase

/-- A request that asks something. -/
def Request.isQuery : Request → Bool
  | .ask _ | .askBindings _ => true
  | .tell _ | .configure _ => false

namespace Conversation

variable {conversation after : Conversation}

/-- What every conversation keeps to. -/
structure IsKept (conversation : Conversation) : Prop where
  sound : IsSound.{0} conversation
  orderly : conversation.kb.IsOrderly

theorem isKept_start (config : Config) : (start config).IsKept :=
  ⟨KnowledgeBase.isSound_empty config, KnowledgeBase.isOrderly_empty config⟩

theorem IsKept.step (kept : conversation.IsKept) (step : conversation.Step after) : after.IsKept :=
  ⟨step.isSound kept.sound, step.isOrderly kept.sound kept.orderly⟩

/-- Telling some texts keeps the planner and the settings, and the clauses on
canonical variables. -/
theorem IsKept.tellAll {texts : List String} (kept : conversation.IsKept) {clauses : List Clause}
    (represents : KnowledgeBase.Represents clauses conversation.kb)
    (returned : (answerAll (texts.map .tell) conversation).Returns after) :
    after.IsKept ∧ after.kb.planner = conversation.kb.planner ∧
      after.kb.config = conversation.kb.config ∧
      ∃ clauses, KnowledgeBase.Represents clauses after.kb := by
  induction texts generalizing conversation clauses with
  | nil =>
      cases returned
      exact ⟨kept, rfl, rfl, clauses, represents⟩
  | cons text rest ih =>
      obtain ⟨next, answered, returned⟩ := (returns_bind ..).mp returned
      have keptNext := kept.step (step_of_answer answered)
      obtain ⟨result, told, answered⟩ := (returns_bind ..).mp answered
      cases result with
      | error error =>
          cases answered
          exact ih keptNext represents returned
      | ok kb =>
          obtain ⟨formula, -, parsed, -, -, -, planner, config⟩ := KnowledgeBase.exists_of_tell told
          obtain ⟨added, representsNext⟩ := represents.tell kept.sound kept.orderly told
          simp only [parsed] at answered
          cases answered
          obtain ⟨keptAfter, samePlanner, sameConfig, represented⟩ :=
            ih keptNext representsNext returned
          exact ⟨keptAfter, samePlanner.trans planner, sameConfig.trans config, represented⟩

/-- Asking some queries. -/
theorem IsKept.askAll {queries : List Request}
    (areQueries : ∀ query ∈ queries, query.isQuery = true) (kept : conversation.IsKept)
    (returned : (answerAll queries conversation).Returns after) :
    after.IsKept ∧ conversation.kb.OnlyAsked after.kb := by
  induction queries generalizing conversation with
  | nil =>
      cases returned
      exact ⟨kept, .refl _⟩
  | cons query rest ih =>
      obtain ⟨isQuery, restQueries⟩ := List.forall_mem_cons.mp areQueries
      obtain ⟨next, answered, returned⟩ := (returns_bind ..).mp returned
      have keptNext := kept.step (step_of_answer answered)
      have onlyAsked : conversation.kb.OnlyAsked next.kb := by
        cases query with
        | tell | configure => cases isQuery
        | ask text =>
            obtain ⟨result, asked, answered⟩ := (returns_bind ..).mp answered
            cases result with
            | error error =>
                cases answered
                exact .refl _
            | ok entry =>
                cases answered
                exact kept.sound.onlyAsked_of_ask asked
        | askBindings text =>
            obtain ⟨result, asked, answered⟩ := (returns_bind ..).mp answered
            cases result with
            | error error =>
                cases answered
                exact .refl _
            | ok entry =>
                cases answered
                exact kept.sound.onlyAsked_of_askBindings asked
      obtain ⟨keptAfter, later⟩ := ih restQueries keptNext returned
      exact ⟨keptAfter, onlyAsked.trans later⟩

end Conversation

end Entailment.FirstOrder
