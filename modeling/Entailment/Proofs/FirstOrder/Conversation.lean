import Entailment.Proofs.FirstOrder.KnowledgeBaseModel
import Entailment.Proofs.Runs

/-!
# Conversations with a knowledge base

A conversation is a sequence of requests to one knowledge base.  A request that
fails changes nothing.  Along every conversation the knowledge base keeps to what
it was told, so a query that is proven at the end of it follows from the formulas
that were accepted.
-/

namespace Entailment.FirstOrder

open Monitored

universe u

/-- A request to a knowledge base. -/
inductive Request where
  | tell (text : String)
  | ask (text : String)
  | askBindings (text : String)
  | configure (config : Config)
  deriving DecidableEq, Repr

/-- A knowledge base with the formulas it was told and has accepted, in order. -/
structure Conversation where
  kb : KnowledgeBase
  told : List SurfaceFormula

namespace Conversation

variable {conversation after : Conversation}

/-- The conversation before the first request. -/
def start (config : Config) : Conversation := ⟨.empty config, []⟩

/-- The conversation after a request. -/
def answer (request : Request) (conversation : Conversation) : Monitored Event Conversation :=
  match request with
  | .tell text => do
      match ← conversation.kb.tell text, SurfaceFormula.parse text with
      | .ok kb, .ok formula => return ⟨kb, conversation.told ++ [formula]⟩
      | _, _ => return conversation
  | .ask text => do
      match ← conversation.kb.ask text with
      | .ok (_, kb) => return { conversation with kb := kb }
      | .error _ => return conversation
  | .askBindings text => do
      match ← conversation.kb.askBindings text with
      | .ok (_, kb) => return { conversation with kb := kb }
      | .error _ => return conversation
  | .configure config => return { conversation with kb := conversation.kb.configure config }

/-- The conversation after some requests. -/
def answerAll : List Request → Conversation → Monitored Event Conversation
  | [], conversation => return conversation
  | request :: rest, conversation => do answerAll rest (← conversation.answer request)

/-- What a request can do to a conversation: nothing when it fails, and otherwise
what the operation does that it asks for. -/
inductive Step (conversation : Conversation) : Conversation → Prop where
  | failed : Step conversation conversation
  | tell {text : String} {kb : KnowledgeBase} {formula : SurfaceFormula}
      (parsed : SurfaceFormula.parse text = .ok formula)
      (returned : (conversation.kb.tell text).Returns (.ok kb)) :
      Step conversation ⟨kb, conversation.told ++ [formula]⟩
  | ask {text : String} {proven : Bool} {kb : KnowledgeBase}
      (returned : (conversation.kb.ask text).Returns (.ok (proven, kb))) :
      Step conversation { conversation with kb := kb }
  | askBindings {text : String} {answers : Answers} {kb : KnowledgeBase}
      (returned : (conversation.kb.askBindings text).Returns (.ok (answers, kb))) :
      Step conversation { conversation with kb := kb }
  | configure (config : Config) :
      Step conversation { conversation with kb := conversation.kb.configure config }

theorem step_of_answer {request : Request} {conversation after : Conversation}
    (returned : (conversation.answer request).Returns after) : conversation.Step after := by
  cases request with
  | tell text =>
      obtain ⟨result, told, returned⟩ := (returns_bind ..).mp returned
      cases result with
      | error error =>
          cases returned
          exact .failed
      | ok kb =>
          obtain ⟨formula, -, parsed, -⟩ := KnowledgeBase.exists_of_tell told
          simp only [parsed] at returned
          cases returned
          exact .tell parsed told
  | ask text =>
      obtain ⟨result, asked, returned⟩ := (returns_bind ..).mp returned
      cases result with
      | error error =>
          cases returned
          exact .failed
      | ok entry =>
          cases returned
          exact .ask asked
  | askBindings text =>
      obtain ⟨result, asked, returned⟩ := (returns_bind ..).mp returned
      cases result with
      | error error =>
          cases returned
          exact .failed
      | ok entry =>
          cases returned
          exact .askBindings asked
  | configure config =>
      cases returned
      exact .configure config

/-- What every step keeps is kept along a sequence of requests. -/
theorem keeps_answerAll {invariant : Conversation → Prop}
    (keeps : ∀ conversation after, invariant conversation → conversation.Step after →
      invariant after)
    {requests : List Request} {conversation after : Conversation} (start : invariant conversation)
    (returned : (answerAll requests conversation).Returns after) : invariant after := by
  induction requests generalizing conversation with
  | nil =>
      cases returned
      exact start
  | cons request rest ih =>
      obtain ⟨next, answered, returned⟩ := (returns_bind ..).mp returned
      exact ih (keeps conversation next start (step_of_answer answered)) returned

/-- The knowledge base keeps to what it was told. -/
abbrev IsSound (conversation : Conversation) : Prop :=
  KnowledgeBase.IsSound.{u} conversation.told conversation.kb

/-- A step keeps a conversation sound. -/
theorem Step.isSound (step : conversation.Step after) (sound : IsSound.{u} conversation) :
    IsSound.{u} after := by
  cases step with
  | failed => exact sound
  | tell parsed told =>
      obtain ⟨formula, otherParsed, kbSound⟩ := KnowledgeBase.IsSound.tell sound told
      cases otherParsed.symm.trans parsed
      exact kbSound
  | ask asked => exact (KnowledgeBase.IsSound.ask sound asked).1
  | askBindings asked => exact KnowledgeBase.IsSound.askBindings sound asked
  | configure config => exact sound.grow (.refl _) sound.hasCanonical rfl

/-- A sequence of requests keeps a conversation sound. -/
theorem isSound_answerAll {requests : List Request} (sound : IsSound.{u} conversation)
    (returned : (answerAll requests conversation).Returns after) : IsSound.{u} after :=
  keeps_answerAll (fun _ _ sound step => step.isSound sound) sound returned

end Conversation

/-- Whatever the settings are, whatever has been asked before, and whatever the
clock and the memory gauge say: every structure that satisfies the universal
closures of the accepted formulas satisfies that of a query that is proven. -/
theorem satisfiesClosure_of_ask (config : Config) (requests : List Request)
    {conversation : Conversation}
    (reached : (Conversation.answerAll requests (.start config)).Returns conversation)
    {text : String} {after : KnowledgeBase}
    (proven : (conversation.kb.ask text).Returns (.ok (true, after))) :
    ∃ query, SurfaceFormula.parse text = .ok query ∧
      ∀ ⦃D : Type u⦄ (N : Structure String String D),
        (∀ formula ∈ conversation.told, N.SatisfiesClosure formula) →
          N.SatisfiesClosure query := by
  have sound := Conversation.isSound_answerAll (KnowledgeBase.isSound_empty.{u} config) reached
  obtain ⟨query, parsed, follows⟩ := (sound.ask proven).2
  exact ⟨query, parsed, follows rfl⟩

/-- A rule, a text that is refused, a query for answers and a fact, and then a
query that follows from the rule and the fact. -/
theorem satisfiesClosure_of_ask_rule :
    ∃ conversation after,
      (Conversation.answerAll
        [.tell "p(?x) => q(?x)", .tell "p(", .askBindings "q(?x)", .tell "p(a)"]
        (.start .default)).Returns conversation ∧ conversation.told.length = 2 ∧
      (conversation.kb.ask "!E ?y q(?y)").Returns (.ok (true, after)) ∧
      ∃ query, SurfaceFormula.parse "!E ?y q(?y)" = .ok query ∧
        ∀ ⦃D : Type⦄ (N : Structure String String D),
          (∀ formula ∈ conversation.told, N.SatisfiesClosure formula) →
            N.SatisfiesClosure query := by
  obtain ⟨conversation, done, reached⟩ := exists_run (Conversation.answerAll
    [.tell "p(?x) => q(?x)", .tell "p(", .askBindings "q(?x)", .tell "p(a)"] (.start .default))
  have run : (conversation.told.length,
      ((conversation.kb.ask "!E ?y q(?y)").run .zero none).1.toOption.map Prod.fst) =
        (2, some true) := by
    rw [← done]
    cbv
  obtain ⟨accepted, run⟩ := Prod.mk.inj run
  obtain ⟨⟨_, after⟩, asked, rfl⟩ := exists_run_ok Prod.fst run
  exact ⟨conversation, after, reached, accepted, asked,
    satisfiesClosure_of_ask .default _ reached asked⟩

end Entailment.FirstOrder
