import Entailment.Proofs.CommonTexts
import Entailment.Proofs.FirstOrder.NullaryKnowledgeBase
import Entailment.Proofs.Propositional.Decision
import Entailment.Proofs.Runs

/-!
# The two knowledge bases agree

A list of texts that both readers accept can be told to both knowledge bases.
What was told then has the same truth value in every world, and both knowledge
bases decide what follows: one by eliminating predicates, the other by a search
for a satisfying assignment.  So they give the same answer, unless the elimination
is cut short.
-/

namespace Entailment

open Entailment.FirstOrder Entailment.Propositional CommonTexts
open Monitored (always_iff returns_bind returns_run)

/-- Tell some texts to a first-order knowledge base, as long as they are accepted. -/
def FirstOrder.KnowledgeBase.tellAll :
    List String → FirstOrder.KnowledgeBase → Monitored Event (Except Error FirstOrder.KnowledgeBase)
  | [], kb => return .ok kb
  | text :: rest, kb => do
      match ← kb.tell text with
      | .error error => return .error error
      | .ok kb => tellAll rest kb

/-- Tell some texts to a propositional knowledge base, as long as they are
accepted. -/
def Propositional.KnowledgeBase.tellAll (texts : List String)
    (kb : Propositional.KnowledgeBase) : Except Error Propositional.KnowledgeBase :=
  texts.foldlM (fun kb text => kb.tell text) kb

/-- The problem of a query is small enough for its text: its names are counted in
32 bits and its clauses in 64. -/
def Propositional.KnowledgeBase.Fits (kb : Propositional.KnowledgeBase) (query : String) : Prop :=
  ∀ named, kb.dimacs query = .ok named →
    named.problem.variableCount ≤ Text.largest32 ∧
      named.problem.clauses.length ≤ Text.largest64

namespace CommonTexts

variable {texts : List String}

/-- A world as a structure of one value. -/
def ofWorld (world : String → Prop) : Structure String String Unit where
  function _ _ := ()
  predicate name _ := world name

/-- Formulas and propositions that say the same. -/
abbrev AgreeAll (formulas : List SurfaceFormula) (propositions : List Proposition) : Prop :=
  List.Forall₂ (Agrees false) formulas propositions

theorem Agrees.satisfiesClosure_iff {formula : SurfaceFormula} {proposition : Proposition}
    (agrees : Agrees false formula proposition) (N : Structure String String Unit) :
    N.SatisfiesClosure formula ↔ proposition.Holds fun name => N.predicate name [] := by
  constructor
  · intro satisfied
    exact (agrees.holds_iff N fun _ => ()).mpr (satisfied _)
  · intro holds ρ
    exact (agrees.holds_iff N ρ).mp holds

/-- A formula follows from others in structures of one value when its proposition
is entailed. -/
theorem follows_iff_entails {told : List SurfaceFormula} {premises : List Proposition}
    (agreeAll : AgreeAll told premises) {query : SurfaceFormula} {proposition : Proposition}
    (agrees : Agrees false query proposition) :
    (∀ N : Structure String String Unit, (∀ formula ∈ told, N.SatisfiesClosure formula) →
      N.SatisfiesClosure query) ↔ Entails premises proposition := by
  have all_iff (N : Structure String String Unit) :
      (∀ formula ∈ told, N.SatisfiesClosure formula) ↔
        ∀ premise ∈ premises, premise.Holds fun name => N.predicate name [] := by
    induction agreeAll with
    | nil => simp
    | cons first _ ih => simp only [List.forall_mem_cons, first.satisfiesClosure_iff N, ih]
  constructor
  · intro follows world holds
    exact (agrees.satisfiesClosure_iff (ofWorld world)).mp
      (follows _ ((all_iff (ofWorld world)).mpr holds))
  · intro entails N satisfied
    exact (agrees.satisfiesClosure_iff N).mpr (entails _ ((all_iff N).mp satisfied))

/-- Texts that both readers accept are told to a first-order knowledge base. -/
theorem tellAll_isNullary {told : List SurfaceFormula} {kb : FirstOrder.KnowledgeBase}
    {result : Except Error FirstOrder.KnowledgeBase} (nullary : kb.IsNullary told)
    {formulas : List SurfaceFormula}
    (parsed : List.Forall₂ (fun text formula => SurfaceFormula.parse text = .ok formula) texts
      formulas) (areNullary : ∀ formula ∈ formulas, formula.IsNullary)
    (returned : (FirstOrder.KnowledgeBase.tellAll texts kb).Returns result) :
    ∃ after, result = .ok after ∧ after.config = kb.config ∧
      after.IsNullary (told ++ formulas) := by
  induction parsed generalizing told kb with
  | nil =>
      cases returned
      exact ⟨kb, rfl, rfl, by simpa using nullary⟩
  | cons first _ ih =>
      obtain ⟨accepted, tellReturned, returned⟩ := (returns_bind ..).mp returned
      obtain ⟨next, rfl, sameConfig, nextNullary⟩ :=
        nullary.tell first (areNullary _ (by simp)) tellReturned
      obtain ⟨after, isAfter, afterConfig, afterNullary⟩ :=
        ih nextNullary (fun formula mem => areNullary formula (by simp [mem])) returned
      exact ⟨after, isAfter, afterConfig.trans sameConfig, by simpa using afterNullary⟩

/-- They are told to a propositional knowledge base as well. -/
theorem tellAll_isSound {told : List Proposition} {kb : Propositional.KnowledgeBase}
    (sound : kb.IsSound told) {propositions : List Proposition}
    (parsed : List.Forall₂ (fun text proposition => Proposition.parse text = .ok proposition) texts
      propositions) :
    ∃ after, Propositional.KnowledgeBase.tellAll texts kb = .ok after ∧
      after.IsSound (told ++ propositions) := by
  induction parsed generalizing told kb with
  | nil => exact ⟨kb, rfl, by simpa using sound⟩
  | cons first _ ih =>
      obtain ⟨next, accepted, nextSound⟩ := sound.exists_tell first
      obtain ⟨after, isAfter, afterSound⟩ := ih nextSound
      refine ⟨after, ?_, by simpa using afterSound⟩
      rw [Propositional.KnowledgeBase.tellAll, List.foldlM_cons, accepted]
      exact isAfter

/-- A propositional query that can be read is answered when its problem fits, and
every answer is right. -/
theorem ask_isRight {ε : Type} {told : List Proposition} {kb : Propositional.KnowledgeBase}
    (sound : kb.IsSound told) {text : String} {query : Proposition}
    (parsed : Proposition.parse text = .ok query)
    {result : Except Error (Bool × Propositional.KnowledgeBase)}
    (returned : (kb.ask .search text : Monitored ε _).Returns result) :
    (kb.Fits text → ∃ entailed later, result = .ok (entailed, later)) ∧
      ∀ entailed later, result = .ok (entailed, later) →
        (entailed = true ↔ Entails told query) := by
  obtain ⟨named, isNamed, question, -⟩ := sound.dimacs parsed
  obtain ⟨statistics, isResult⟩ := Propositional.KnowledgeBase.ask_returns returned
  simp only [isNamed, bind, Except.bind] at isResult
  constructor
  · intro fits
    obtain ⟨fewVariables, fewClauses⟩ := fits named isNamed
    obtain ⟨verdict, answered, -⟩ := question.search fewVariables fewClauses
    rw [answered] at isResult
    exact ⟨_, _, isResult⟩
  · rintro entailed later rfl
    cases answered : Oracle.search named.render with
    | error error =>
        rw [answered] at isResult
        cases isResult
    | ok verdict =>
        rw [answered] at isResult
        cases isResult
        rw [decide_eq_true_iff]
        exact question.unsatisfiable_iff_of_search answered

/-- What both readers read in texts that they accept says the same. -/
theorem exists_agreeAll
    (firstOrder : ∀ text ∈ texts, ∃ formula, SurfaceFormula.parse text = .ok formula)
    (propositional : ∀ text ∈ texts, ∃ proposition, Proposition.parse text = .ok proposition) :
    ∃ formulas propositions,
      List.Forall₂ (fun text formula => SurfaceFormula.parse text = .ok formula) texts formulas ∧
      List.Forall₂ (fun text proposition => Proposition.parse text = .ok proposition)
        texts propositions ∧ AgreeAll formulas propositions := by
  induction texts with
  | nil => exact ⟨[], [], .nil, .nil, .nil⟩
  | cons text rest ih =>
      obtain ⟨formula, isFormula⟩ := firstOrder text (by simp)
      obtain ⟨proposition, isProposition⟩ := propositional text (by simp)
      obtain ⟨formulas, propositions, areFormulas, arePropositions, agreeAll⟩ :=
        ih (fun other mem => firstOrder other (List.mem_cons_of_mem _ mem))
          fun other mem => propositional other (List.mem_cons_of_mem _ mem)
      exact ⟨formula :: formulas, proposition :: propositions, .cons isFormula areFormulas,
        .cons isProposition arePropositions,
        .cons (agrees_of_parse isFormula isProposition) agreeAll⟩

theorem AgreeAll.isNullary {formulas : List SurfaceFormula} {propositions : List Proposition}
    (agreeAll : AgreeAll formulas propositions) : ∀ formula ∈ formulas, formula.IsNullary := by
  induction agreeAll with
  | nil => simp
  | cons first _ ih => exact List.forall_mem_cons.mpr ⟨first.atoms, ih⟩

end CommonTexts

/-- Texts that both readers accept can be told to both knowledge bases, and a query
that both accept gets an answer from both: from the first-order one always, and
from the propositional one when its problem fits.  Without limits and whatever the
other settings are, the two answers are equal when the search was not cut short.
When it was, a query that is proven is entailed. -/
theorem ask_agrees_on_commonTexts {ε : Type} {config : Config}
    (unlimited : config.limits = .unlimited) {texts : List String} {query : String}
    (firstOrder : ∀ text ∈ query :: texts, ∃ formula, SurfaceFormula.parse text = .ok formula)
    (propositional : ∀ text ∈ query :: texts,
      ∃ proposition, Proposition.parse text = .ok proposition) :
    ∃ props, Propositional.KnowledgeBase.tellAll texts .empty = .ok props ∧
      (FirstOrder.KnowledgeBase.tellAll texts (.empty config)).Always fun told =>
        ∃ kb, told = .ok kb ∧ (kb.ask query).Always fun asked =>
          ∃ proven after, asked = .ok (proven, after) ∧
            (props.ask .search query : Monitored ε _).Always fun answered =>
              (props.Fits query → ∃ entailed later, answered = .ok (entailed, later)) ∧
              ∀ entailed later, answered = .ok (entailed, later) →
                (after.statistics.truncated = false → proven = entailed) ∧
                (after.statistics.truncated = true → proven = true → entailed = true) := by
  obtain ⟨queryFormula, isQuery⟩ := firstOrder query (by simp)
  obtain ⟨queryProposition, isProposition⟩ := propositional query (by simp)
  have queryAgrees := agrees_of_parse isQuery isProposition
  obtain ⟨formulas, propositions, areFormulas, arePropositions, agreeAll⟩ :=
    exists_agreeAll (fun text mem => firstOrder text (List.mem_cons_of_mem _ mem))
      fun text mem => propositional text (List.mem_cons_of_mem _ mem)
  obtain ⟨props, isProps, propsSound⟩ :=
    tellAll_isSound Propositional.KnowledgeBase.isSound_empty arePropositions
  refine ⟨props, isProps, (always_iff _).mpr fun told toldReturned => ?_⟩
  obtain ⟨kb, rfl, sameConfig, nullary⟩ := tellAll_isNullary
    (FirstOrder.KnowledgeBase.isNullary_empty config) areFormulas agreeAll.isNullary toldReturned
  refine ⟨kb, rfl, (always_iff _).mpr fun asked askReturned => ?_⟩
  have kbUnlimited : kb.config.limits = .unlimited := by
    rw [sameConfig]
    exact unlimited
  obtain ⟨proven, after, rfl, sound, complete⟩ :=
    nullary.ask kbUnlimited isQuery queryAgrees.atoms askReturned
  rw [List.nil_append, follows_iff_entails agreeAll queryAgrees] at sound complete
  refine ⟨proven, after, rfl, (always_iff _).mpr fun answered answeredReturned => ?_⟩
  obtain ⟨answers, isRight⟩ := ask_isRight propsSound isProposition answeredReturned
  refine ⟨answers, fun entailed later isAnswer => ?_⟩
  have entailed_iff := isRight entailed later isAnswer
  rw [List.nil_append] at entailed_iff
  constructor
  · intro whole
    rw [Bool.eq_iff_iff, entailed_iff]
    exact ⟨sound, complete whole⟩
  · intro _ isProven
    exact entailed_iff.mpr (sound isProven)

/-- A chain of implications, which the two readers read differently, and a
conjunction.  Both knowledge bases say that the query follows. -/
theorem ask_agrees_on_commonTexts_chain :
    ∃ props kb after later,
      Propositional.KnowledgeBase.tellAll ["a => b => ~c", "(a | d) ^ b"] .empty = .ok props ∧
      (FirstOrder.KnowledgeBase.tellAll ["a => b => ~c", "(a | d) ^ b"]
        (.empty .default)).Returns (.ok kb) ∧
      (kb.ask "c => d").Returns (.ok (true, after)) ∧ after.statistics.truncated = false ∧
      (props.ask .search "c => d" : Monitored Unit _).Returns (.ok (true, later)) := by
  have accepted : ∀ text ∈ ["c => d", "a => b => ~c", "(a | d) ^ b"],
      (SurfaceFormula.parse text).toOption.isSome = true ∧
        (Proposition.parse text).toOption.isSome = true := by
    simp only [List.forall_mem_cons]
    refine ⟨⟨?_, ?_⟩, ⟨?_, ?_⟩, ⟨?_, ?_⟩, by simp⟩
    all_goals cbv
  have ok_of_isSome {α : Type} {result : Except Error α} (isSome : result.toOption.isSome = true) :
      ∃ value, result = .ok value := by
    cases result with
    | error error => simp [Except.toOption] at isSome
    | ok value => exact ⟨value, rfl⟩
  obtain ⟨props, isProps, told⟩ := @ask_agrees_on_commonTexts Unit .default rfl
    ["a => b => ~c", "(a | d) ^ b"] "c => d"
    (fun text mem => ok_of_isSome (accepted text mem).1)
    (fun text mem => ok_of_isSome (accepted text mem).2)
  have toldReturned := returns_run .zero none
    (FirstOrder.KnowledgeBase.tellAll ["a => b => ~c", "(a | d) ^ b"] (.empty .default))
  obtain ⟨kb, isKb, asks⟩ := told.2 _ toldReturned
  rw [isKb] at toldReturned
  have askReturned := returns_run .zero none (kb.ask "c => d")
  obtain ⟨proven, after, isAsked, answers⟩ := asks.2 _ askReturned
  have evaluated : (((FirstOrder.KnowledgeBase.tellAll ["a => b => ~c", "(a | d) ^ b"]
      (.empty .default)).run .zero none).1.toOption.bind fun kb =>
        ((kb.ask "c => d").run .zero none).1.toOption.map fun entry =>
          (entry.1, entry.2.statistics.truncated)) = some (true, false) := by
    cbv
  simp only [isKb, isAsked, Except.toOption, Option.bind_some, Option.map_some, Option.some.injEq,
    Prod.mk.injEq] at evaluated
  obtain ⟨rfl, whole⟩ := evaluated
  have fits : props.Fits "c => d" := by
    have counted : ((Propositional.KnowledgeBase.tellAll ["a => b => ~c", "(a | d) ^ b"]
        .empty).bind fun props => (props.dimacs "c => d").map fun named =>
          (named.problem.variableCount, named.problem.clauses.length)) = .ok (4, 5) := by
      cbv
    intro named isNamed
    simp only [isProps, isNamed, Except.bind, Except.map, Except.ok.injEq, Prod.mk.injEq] at counted
    simp [counted, Text.largest32, Text.largest64]
  have answerReturned := returns_run .zero none (props.ask .search "c => d" : Monitored Unit _)
  obtain ⟨answered, agree⟩ := answers.2 _ answerReturned
  obtain ⟨entailed, later, isAnswer⟩ := answered fits
  obtain rfl := (agree entailed later isAnswer).1 whole
  rw [isAsked] at askReturned
  rw [isAnswer] at answerReturned
  exact ⟨props, kb, after, later, isProps, toldReturned, askReturned, whole, answerReturned⟩

end Entailment
