import Entailment.Proofs.FirstOrder.OrderlyConversation

/-!
# The names of function symbols

A function symbol has a name that was read from a text or the name of a Skolem function.  The first
kind is interned, and a name of the second kind contains a `#` and a number that no earlier Skolem
function has.  So along every conversation name and arity tell all function symbols apart, those of
Skolem functions among them.

Skolem functions are created for the existential quantifiers of a negation normal form and for
nothing else.
-/

namespace Entailment

/-- Whether there is an existential quantifier in a formula. -/
def Formula.hasExistential {β α : Type} : Formula β α → Bool
  | truth _ => false
  | atom _ => false
  | not body => body.hasExistential
  | binary _ left right => left.hasExistential || right.hasExistential
  | quantified quantifier _ body => decide (quantifier = .existential) || body.hasExistential

namespace FirstOrder

open Monitored

/-! ## Skolem functions -/

theorem Signature.gainsVariables_addVariable (name : String) (signature : Signature) :
    signature.GainsVariables (signature.addVariable name).2 :=
  have grows := growsTo_addVariable name signature
  ⟨grows, rfl, rfl, rfl, fun has => has.mono grows rfl,
    fun proper => proper.mono grows rfl rfl proper.distinctFunctions⟩

section

variable {invariant : Signature → Prop}
  (onVariables : ∀ signature extended : Signature, signature.GainsVariables extended →
    invariant signature → invariant extended)

include onVariables

/-- Removing quantifiers adds variables, and Skolem functions for existential quantifiers. -/
theorem Skolemization.run_keeps {universals : List Variable} {σ : Substitution}
    {formula : Formula Variable Atom} {state : Skolemization}
    (onSkolem : formula.hasExistential = true → ∀ (signature : Signature) (arity : Nat),
      invariant signature → invariant (signature.addSkolem arity).2)
    (start : invariant state.signature) :
    invariant (run universals σ formula state).2.signature := by
  fun_induction run universals σ formula state with
  | case1 | case2 | case3 | case4 | case5 | case6 => exact start
  | case7 _ _ _ _ _ _ _ _ _ _ failed ih =>
      rw [failed] at ih
      exact ih (fun left => onSkolem (Bool.or_eq_true_iff.mpr (.inl left))) start
  | case8 _ _ _ _ _ _ _ _ _ _ done _ _ failed leftIh rightIh =>
      rw [done] at leftIh
      rw [failed] at rightIh
      exact rightIh (fun right => onSkolem (Bool.or_eq_true_iff.mpr (.inr right)))
        (leftIh (fun left => onSkolem (Bool.or_eq_true_iff.mpr (.inl left))) start)
  | case9 _ _ _ _ _ _ _ _ _ _ leftDone _ _ rightDone leftIh rightIh =>
      rw [leftDone] at leftIh
      rw [rightDone] at rightIh
      exact rightIh (fun right => onSkolem (Bool.or_eq_true_iff.mpr (.inr right)))
        (leftIh (fun left => onSkolem (Bool.or_eq_true_iff.mpr (.inl left))) start)
  | case10 _ _ _ _ _ _ _ added ih =>
      cases added
      exact ih onSkolem (onVariables _ _ (Signature.gainsVariables_addVariable ..) start)
  | case11 _ _ _ _ _ _ _ added ih =>
      cases added
      exact ih (fun _ => onSkolem rfl) (onSkolem rfl _ _ start)

theorem Clause.canonicalAll_keeps {clauses : List Clause} {signature : Signature}
    (start : invariant signature) : invariant (canonicalAll clauses signature).2 := by
  induction clauses generalizing signature with
  | nil => exact start
  | cons c rest ih =>
      exact ih (onVariables _ _ (signature.reserveCanonical_spec c.vars.length).1 start)

/-- Turning a formula into clauses adds variables, and Skolem functions for the existential
quantifiers of the negation normal form. -/
theorem clausesOf_keeps {invert : Bool} {free : List Variable} {formula : Formula Variable Atom}
    {signature : Signature}
    (onSkolem : ∀ normal, formula.negationNormal invert = .ok normal →
      normal.hasExistential = true → ∀ (signature : Signature) (arity : Nat),
        invariant signature → invariant (signature.addSkolem arity).2)
    (start : invariant signature) :
    invariant (clausesOf invert free formula signature).signature := by
  unfold clausesOf
  cases normalized : formula.negationNormal invert with
  | error => exact start
  | ok normal =>
      have skolemized := @Skolemization.run_keeps invariant onVariables free .empty normal
        ⟨signature, []⟩ (onSkolem normal normalized) start
      simp only [clausesOfNormal, skolemize]
      split
      · rename_i failed
        rwa [failed] at skolemized
      · rename_i done
        rw [done] at skolemized
        split
        · exact skolemized
        · exact Clause.canonicalAll_keeps onVariables skolemized

end

/-! ## Name and arity -/

namespace Signature

theorem skolemName_inj {number other : Nat} :
    skolemName number = skolemName other ↔ number = other := by
  refine ⟨fun same => ?_, congrArg skolemName⟩
  have digits : toString number = toString other := (String.append_right_inj _).mp same
  exact Nat.repr_injective digits

/-- Every function name is one that a text can contain or that of a Skolem function created so far,
and name and arity tell function symbols apart. -/
structure TellsApart (signature : Signature) : Prop where
  named : ∀ info ∈ signature.functions.toList,
    IsName info.name ∨ ∃ number ≤ signature.skolems, info.name = skolemName number
  apart : signature.functions.toList.Pairwise fun earlier later =>
    ¬(earlier.name = later.name ∧ earlier.arity = later.arity)

theorem tellsApart_empty : empty.TellsApart := ⟨nofun, .nil⟩

namespace TellsApart

variable {signature extended : Signature}

/-- Only functions matter. -/
theorem of_same (tellsApart : signature.TellsApart)
    (functions : extended.functions = signature.functions)
    (skolems : extended.skolems = signature.skolems) : extended.TellsApart := by
  refine ⟨?_, ?_⟩
  · rw [functions, skolems]
    exact tellsApart.named
  · rw [functions]
    exact tellsApart.apart

theorem gainsVariables (tellsApart : signature.TellsApart)
    (gains : signature.GainsVariables extended) : extended.TellsApart :=
  tellsApart.of_same gains.functions gains.skolems

theorem internFunction (tellsApart : signature.TellsApart) {name : String} (isName : IsName name)
    (arity : Nat) : (signature.internFunction name arity).2.TellsApart := by
  unfold Signature.internFunction
  cases found : signature.function? name arity with
  | some f => exact tellsApart
  | none =>
      refine ⟨fun info mem => ?_, ?_⟩
      · simp only [Array.toList_push, List.mem_append, List.mem_singleton] at mem
        rcases mem with old | rfl
        · exact tellsApart.named info old
        · exact .inl isName
      · exact pairwise_push tellsApart.apart (not_mem_functions_of_function? found)

/-- The number of a new Skolem function is the next one. -/
theorem addSkolem (tellsApart : signature.TellsApart) (arity : Nat) :
    (signature.addSkolem arity).2.TellsApart := by
  refine ⟨fun info mem => ?_, pairwise_push tellsApart.apart fun info mem same => ?_⟩
  · simp only [Signature.addSkolem, Array.toList_push, List.mem_append, List.mem_singleton] at mem
    rcases mem with old | rfl
    · rcases tellsApart.named info old with isName | ⟨number, earlier, isIt⟩
      · exact .inl isName
      · exact .inr ⟨number, Nat.le_succ_of_le earlier, isIt⟩
    · exact .inr ⟨_, Nat.le_refl _, rfl⟩
  · rcases tellsApart.named info mem with isName | ⟨number, earlier, isIt⟩
    · exact not_isPlain_skolemName _ (same.1 ▸ isName.isPlain)
    · have sameNumber := skolemName_inj.mp (isIt.symm.trans same.1)
      omega

theorem internPredicate (tellsApart : signature.TellsApart) (name : String) (arity : Nat) :
    (signature.internPredicate name arity).2.TellsApart := by
  unfold Signature.internPredicate
  split
  · exact tellsApart
  · exact tellsApart.of_same rfl rfl

end TellsApart

end Signature

/-! ## Formulas -/

namespace Signature.TellsApart

variable {signature : Signature}

theorem lower (tellsApart : signature.TellsApart) {formula : SurfaceFormula}
    (named : formula.IsNamed) : (formula.lower signature).2.TellsApart := by
  have keeps : Lowering.Keeps Signature.TellsApart :=
    ⟨fun _ tellsApart => tellsApart.of_same rfl rfl,
      fun arity isName tellsApart => tellsApart.internFunction isName arity,
      fun name arity tellsApart => tellsApart.internPredicate name arity⟩
  exact keeps.lowerFormula tellsApart (named [])

theorem clausesOf (tellsApart : signature.TellsApart) (invert : Bool) (free : List Variable)
    (formula : Formula Variable Atom) :
    (clausesOf invert free formula signature).signature.TellsApart :=
  clausesOf_keeps (fun _ _ gains tellsApart => tellsApart.gainsVariables gains)
    (fun _ _ _ _ arity tellsApart => tellsApart.addSkolem arity) tellsApart

end Signature.TellsApart

/-! ## Conversations -/

namespace KnowledgeBase

variable {kb after : KnowledgeBase} {told : List SurfaceFormula} {text : String}

theorem tellsApart_of_tell (tellsApart : kb.signature.TellsApart)
    (returned : (kb.tell text).Returns (.ok after)) : after.signature.TellsApart := by
  obtain ⟨formula, clauses, parsed, -, signature, -⟩ := exists_of_tell returned
  rw [signature]
  exact (tellsApart.lower (SurfaceFormula.isNamed_of_parse parsed)).clausesOf ..

theorem IsSound.tellsApart_of_ask (sound : IsSound.{0} told kb)
    (tellsApart : kb.signature.TellsApart) {proven : Bool}
    (returned : (kb.ask text).Returns (.ok (proven, after))) : after.signature.TellsApart := by
  obtain ⟨query, clauses, start, refutation, parsed, made, refuted, -⟩ :=
    exists_refute_of_ask returned
  have named := SurfaceFormula.isNamed_of_parse parsed
  obtain ⟨others, othersMade, ready⟩ := sound.exists_negatedQuery named
  obtain rfl : others = clauses := Except.ok.inj (othersMade.symm.trans made)
  exact ((tellsApart.lower named).clausesOf ..).gainsVariables (ready.gains refuted).1

theorem IsSound.tellsApart_of_askBindings (sound : IsSound.{0} told kb)
    (tellsApart : kb.signature.TellsApart) {answers : Answers}
    (returned : (kb.askBindings text).Returns (.ok (answers, after))) :
    after.signature.TellsApart := by
  obtain ⟨query, clauses, start, refutation, parsed, made, refuted, -⟩ :=
    exists_refute_of_askBindings returned
  have ready := sound.isReady_answerClauses parsed (gainsAnswer_internPredicate ..) made
  have lowered := tellsApart.lower (SurfaceFormula.isNamed_of_parse parsed)
  refine Signature.TellsApart.gainsVariables ?_ (ready.gains refuted).1
  exact ((lowered.internPredicate ..).clausesOf ..).clausesOf ..

end KnowledgeBase

namespace Conversation

/-- A step keeps function symbols apart. -/
theorem Step.tellsApart {conversation after : Conversation} (step : conversation.Step after)
    (sound : IsSound.{0} conversation) (tellsApart : conversation.kb.signature.TellsApart) :
    after.kb.signature.TellsApart := by
  cases step with
  | failed => exact tellsApart
  | tell _ told => exact KnowledgeBase.tellsApart_of_tell tellsApart told
  | ask asked => exact sound.tellsApart_of_ask tellsApart asked
  | askBindings asked => exact sound.tellsApart_of_askBindings tellsApart asked
  | configure config => exact tellsApart

/-- In every knowledge base that a conversation reaches, name and arity tell function symbols
apart. -/
theorem tellsApart_answerAll {config : Config} {requests : List Request}
    {conversation : Conversation}
    (reached : (answerAll requests (.start config)).Returns conversation) :
    conversation.kb.signature.TellsApart :=
  (@keeps_answerAll
    (fun conversation => IsSound.{0} conversation ∧ conversation.kb.signature.TellsApart)
    (fun _ _ kept step => ⟨step.isSound kept.1, step.tellsApart kept.1 kept.2⟩) _ _ _
    ⟨KnowledgeBase.isSound_empty config, Signature.tellsApart_empty⟩ reached).2

end Conversation

end FirstOrder

end Entailment
