import Entailment.Proofs.FirstOrder.Conversation
import Entailment.Proofs.FirstOrder.GreedyOrder
import Entailment.Proofs.FirstOrder.UnsatisfiableStores

/-!
# What a conversation keeps in order

Along every conversation the signature stays proper: canonical variables are in the
order of their creation, and no two predicates share a name and an arity, nor do two
functions with plain names.  The planner stays faithful: the order that it keeps for
the next query serves the store that the order was made for.
-/

namespace Entailment.FirstOrder

open Monitored

namespace KnowledgeBase

/-- A knowledge base with a proper signature and a faithful planner. -/
structure IsOrderly (kb : KnowledgeBase) : Prop where
  proper : kb.signature.IsProper
  faithful : kb.planner.IsFaithful

theorem isOrderly_empty (config : Config) : (empty config).IsOrderly :=
  ⟨Signature.isProper_empty, Planner.isFaithful_start⟩

/-- A refutation only adds variables to the signature, and the planner keeps the
order that it made. -/
theorem IsOrderly.refute {kb after : KnowledgeBase} (orderly : kb.IsOrderly) {start : Duration}
    {mode : ProofMode} {query : Option AnswerQuery} {clauses : List Clause} {signature : Signature}
    {refutation : Refutation} (ready : kb.IsReady clauses signature)
    (returned : (kb.refute start mode query (kb.store.insertAll clauses) signature).Returns
      (.ok (refutation, after))) :
    after.IsOrderly := by
  obtain ⟨gains, carries⟩ := ready.gains returned
  refine ⟨gains.proper (ready.proper orderly.proper), ?_⟩
  rw [carries.planner]
  exact (Planner.orderFor_spec orderly.faithful _ _).2

variable {told : List SurfaceFormula} {kb after : KnowledgeBase} {text : String}

/-- Telling adds the symbols of a formula to the signature, and then its Skolem
functions. -/
theorem IsSound.exists_gains_of_tell (sound : IsSound.{0} told kb)
    (returned : (kb.tell text).Returns (.ok after)) :
    ∃ lowered, kb.signature.GainsSymbols (fun _ => True) lowered ∧
      lowered.GainsSymbols (fun name => ¬IsPlain name) after.signature := by
  obtain ⟨formula, clauses, parsed, -, signature, -⟩ := exists_of_tell returned
  have lowered :=
    SurfaceFormula.lower_means.{0} kb.signature (SurfaceFormula.isNamed_of_parse parsed)
  obtain ⟨_, _, _, -, -, -, clausifies⟩ :=
    clausesOf_spec.{0} (fun _ _ written => written.toIsScoped)
      (lowered.gains.canonical sound.hasCanonical) lowered.freeOver false lowered.atoms
  exact ⟨_, lowered.gains, signature ▸ clausifies.gains⟩

theorem IsOrderly.tell (orderly : kb.IsOrderly) (sound : IsSound.{0} told kb)
    (returned : (kb.tell text).Returns (.ok after)) : after.IsOrderly := by
  obtain ⟨-, -, -, -, -, -, planner, -⟩ := exists_of_tell returned
  obtain ⟨lowered, lowers, clausifies⟩ := sound.exists_gains_of_tell returned
  exact ⟨clausifies.proper (lowers.proper orderly.proper), planner ▸ orderly.faithful⟩

/-- The clauses of a negated query, with the signature that they are over. -/
def negatedQuery (query : SurfaceFormula) (signature : Signature) : Clausification :=
  clausesOf true [] (query.lower signature).1.close (query.lower signature).2

/-- A negated query has clauses, with which the store is ready. -/
theorem IsSound.exists_negatedQuery (sound : IsSound.{0} told kb) {query : SurfaceFormula}
    (named : query.IsNamed) :
    ∃ clauses, (negatedQuery query kb.signature).clauses = .ok clauses ∧
      kb.IsReady clauses (negatedQuery query kb.signature).signature := by
  have lowered := SurfaceFormula.lower_means.{0} kb.signature named
  obtain ⟨_, _, clauses, -, -, made, clausifies⟩ :=
    clausesOf_spec.{0} (fun _ _ isScoped => isScoped)
      (lowered.gains.canonical sound.hasCanonical) (by simp) true
      (Lowered.everyAtom_close lowered.atoms)
  exact ⟨clauses, made, sound.isReady lowered.gains clausifies.gains clausifies.isOver⟩

/-- Asking refutes a store over a signature, both of which are ready. -/
theorem IsSound.exists_ready_of_ask (sound : IsSound.{0} told kb) {proven : Bool}
    (returned : (kb.ask text).Returns (.ok (proven, after))) :
    ∃ clauses signature start refutation, kb.IsReady clauses signature ∧
      (kb.refute start .single none (kb.store.insertAll clauses) signature).Returns
        (.ok (refutation, after)) := by
  obtain ⟨query, clauses, start, refutation, parsed, made, refuted, -⟩ :=
    exists_refute_of_ask returned
  obtain ⟨others, othersMade, ready⟩ :=
    sound.exists_negatedQuery (SurfaceFormula.isNamed_of_parse parsed)
  obtain rfl : others = clauses := Except.ok.inj (othersMade.symm.trans made)
  exact ⟨_, _, start, refutation, ready, refuted⟩

theorem IsSound.exists_ready_of_askBindings (sound : IsSound.{0} told kb) {answers : Answers}
    (returned : (kb.askBindings text).Returns (.ok (answers, after))) :
    ∃ clauses signature start query refutation, kb.IsReady clauses signature ∧
      (kb.refute start .all (some query) (kb.store.insertAll clauses) signature).Returns
        (.ok (refutation, after)) := by
  obtain ⟨query, clauses, start, refutation, parsed, made, refuted, -⟩ :=
    exists_refute_of_askBindings returned
  exact ⟨_, _, start, _, refutation,
    sound.isReady_answerClauses parsed (gainsAnswer_internPredicate ..) made, refuted⟩

theorem IsOrderly.ask (orderly : kb.IsOrderly) (sound : IsSound.{0} told kb) {proven : Bool}
    (returned : (kb.ask text).Returns (.ok (proven, after))) : after.IsOrderly := by
  obtain ⟨_, _, _, _, ready, refuted⟩ := sound.exists_ready_of_ask returned
  exact orderly.refute ready refuted

theorem IsOrderly.askBindings (orderly : kb.IsOrderly) (sound : IsSound.{0} told kb)
    {answers : Answers} (returned : (kb.askBindings text).Returns (.ok (answers, after))) :
    after.IsOrderly := by
  obtain ⟨_, _, _, _, _, ready, refuted⟩ := sound.exists_ready_of_askBindings returned
  exact orderly.refute ready refuted

end KnowledgeBase

namespace Conversation

/-- A step keeps a sound conversation in order. -/
theorem Step.isOrderly {conversation after : Conversation} (step : conversation.Step after)
    (sound : IsSound.{0} conversation) (orderly : conversation.kb.IsOrderly) :
    after.kb.IsOrderly := by
  cases step with
  | failed => exact orderly
  | tell _ told => exact orderly.tell sound told
  | ask asked => exact orderly.ask sound asked
  | askBindings asked => exact orderly.askBindings sound asked
  | configure config => exact ⟨orderly.proper, orderly.faithful⟩

/-- A sequence of requests keeps a conversation in order. -/
theorem isOrderly_answerAll {requests : List Request} {conversation after : Conversation}
    (sound : IsSound.{0} conversation) (orderly : conversation.kb.IsOrderly)
    (returned : (answerAll requests conversation).Returns after) : after.kb.IsOrderly :=
  (@keeps_answerAll (fun conversation => IsSound.{0} conversation ∧ conversation.kb.IsOrderly)
    (fun _ _ kept step => ⟨step.isSound kept.1, step.isOrderly kept.1 kept.2⟩) _ _ _
    ⟨sound, orderly⟩ returned).2

end Conversation

end Entailment.FirstOrder
