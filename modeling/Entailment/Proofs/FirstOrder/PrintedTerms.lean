import Entailment.Proofs.FirstOrder.AnswerSearch
import Entailment.Proofs.FirstOrder.FunctionNames
import Entailment.Proofs.FirstOrder.ReadBack
import Entailment.Proofs.Runs

/-!
# Printed ground terms

A printed term is the name of a function symbol and, if the symbol has arguments, their texts in
parentheses and with commas between them.  No function name contains a parenthesis or a comma, so
that the text of a ground term shows where each of its parts ends.  As name and arity tell function
symbols apart, a ground term can be read off its text.

Answers are collected as texts.  So no two ground answers are taken for one.
-/

namespace Entailment.FirstOrder

/-! ## Names -/

/-- A character that stands between the parts of a printed term. -/
def isDelimiter (c : Char) : Bool := c == '(' || c == ',' || c == ')'

/-- A text without delimiters. -/
def IsUndivided (text : List Char) : Prop := ∀ c ∈ text, isDelimiter c = false

/-- A text that is empty or begins with a delimiter. -/
def BeginsDivided (text : List Char) : Prop := ∀ c ∈ text.head?, isDelimiter c = true

theorem IsName.isUndivided {name : String} (isName : IsName name) : IsUndivided name.toList := by
  intro c mem
  have isNameChar := isName c mem
  rw [← Bool.not_eq_true]
  intro delimits
  simp only [isDelimiter, Bool.or_eq_true, beq_iff_eq] at delimits
  rcases delimits with (rfl | rfl) | rfl <;> cases isNameChar

theorem isUndivided_skolemName (number : Nat) :
    IsUndivided (Signature.skolemName number).toList := by
  intro c mem
  have chars : (Signature.skolemName number).toList =
      's' :: 'k' :: '#' :: Nat.toDigits 10 number := by
    simp [Signature.skolemName]
  rw [chars] at mem
  simp only [List.mem_cons] at mem
  rcases mem with rfl | rfl | rfl | digit
  · rfl
  · rfl
  · rfl
  · have isDigit := Nat.isDigit_of_mem_toDigits (by decide) (by decide) digit
    rw [← Bool.not_eq_true]
    intro delimits
    simp only [isDelimiter, Bool.or_eq_true, beq_iff_eq] at delimits
    rcases delimits with (rfl | rfl) | rfl <;> cases isDigit

theorem Signature.TellsApart.isUndivided {signature : Signature}
    (tellsApart : signature.TellsApart) {f : FunctionSymbol}
    (bound : f.index < signature.functions.size) :
    IsUndivided (signature.functionInfo f).name.toList := by
  have mem : signature.functionInfo f ∈ signature.functions.toList := by
    simp [functionInfo, bound]
  rcases tellsApart.named _ mem with isName | ⟨number, -, isIt⟩
  · exact isName.isUndivided
  · rw [isIt]
    exact isUndivided_skolemName number

/-- A text is cut uniquely in front of its first delimiter. -/
theorem IsUndivided.append_inj {name other rest otherRest : List Char}
    (undivided : IsUndivided name) (otherUndivided : IsUndivided other)
    (begins : BeginsDivided rest) (otherBegins : BeginsDivided otherRest)
    (same : name ++ rest = other ++ otherRest) :
    name = other ∧ rest = otherRest := by
  induction name generalizing other with
  | nil =>
      cases other with
      | nil => exact ⟨rfl, same⟩
      | cons c others =>
          rw [List.nil_append] at same
          have delimits := begins c (by simp [same])
          rw [otherUndivided c (List.mem_cons_self ..)] at delimits
          cases delimits
  | cons c name ih =>
      cases other with
      | nil =>
          rw [List.nil_append] at same
          have delimits := otherBegins c (by simp [← same])
          rw [undivided c (List.mem_cons_self ..)] at delimits
          cases delimits
      | cons d others =>
          obtain ⟨rfl, sameRest⟩ := List.cons.inj same
          obtain ⟨rfl, restSame⟩ := ih (fun e mem => undivided e (List.mem_cons_of_mem _ mem))
            (fun e mem => otherUndivided e (List.mem_cons_of_mem _ mem)) sameRest
          exact ⟨rfl, restSame⟩

/-! ## Terms -/

/-- What may stand behind a printed term. -/
def EndsPrinted (rest : List Char) : Prop := ∀ c ∈ rest.head?, c = ',' ∨ c = ')'

theorem EndsPrinted.beginsDivided {rest : List Char} (ends : EndsPrinted rest) :
    BeginsDivided rest := by
  intro c mem
  rcases ends c mem with rfl | rfl <;> rfl

namespace Signature

/-- A ground term over a signature. -/
@[mk_iff]
structure HasGround (signature : Signature) (t : Term) : Prop where
  isOver : t.IsOver signature
  isGround : t.isGround = true

variable {signature : Signature}

theorem HasGround.of_app {f : FunctionSymbol} {args : List Term}
    (ground : signature.HasGround (.app f args)) :
    f.index < signature.functions.size ∧ args.length = (signature.functionInfo f).arity ∧
      ∀ t ∈ args, signature.HasGround t := by
  obtain ⟨isOver, isGround⟩ := ground
  obtain ⟨bound, arity, argsOver⟩ := Term.isOver_app.mp isOver
  rw [Term.isGround, Term.areGround_eq, List.all_eq_true] at isGround
  exact ⟨bound, arity, fun t mem => ⟨argsOver t mem, isGround t mem⟩⟩

/-- The text of a term belongs to no other ground term, whatever stands behind it. -/
def Identifies (signature : Signature) (s : Term) : Prop :=
  ∀ ⦃t : Term⦄, signature.HasGround t → ∀ ⦃rest otherRest : List Char⦄, EndsPrinted rest →
    EndsPrinted otherRest →
      (signature.renderTerm s).toList ++ rest = (signature.renderTerm t).toList ++ otherRest →
        s = t ∧ rest = otherRest

/-- The texts of the arguments behind the first one. -/
def renderOthers (signature : Signature) (args : List Term) : List Char :=
  args.flatMap fun t => ',' :: (signature.renderTerm t).toList

/-- The text of arguments, with the parentheses around them. -/
def renderArguments (signature : Signature) : List Term → List Char
  | [] => []
  | first :: others =>
      '(' :: ((signature.renderTerm first).toList ++ signature.renderOthers others ++ [')'])

theorem toList_renderTerm_app (f : FunctionSymbol) (args : List Term) :
    (signature.renderTerm (.app f args)).toList =
      (signature.functionInfo f).name.toList ++ signature.renderArguments args := by
  rw [renderTerm, renderTerms_eq, String.toList_append]
  cases args with
  | nil => rfl
  | cons first others =>
      rw [List.map_cons, toList_parenthesize_cons, List.flatMap_map]
      rfl

theorem endsPrinted_renderOthers (args : List Term) (rest : List Char) :
    EndsPrinted (signature.renderOthers args ++ ')' :: rest) := by
  intro c mem
  cases args with
  | nil => exact .inr (Option.some.inj mem).symm
  | cons t ts => exact .inl (Option.some.inj mem).symm

theorem beginsDivided_renderArguments (args : List Term) {rest : List Char}
    (ends : EndsPrinted rest) : BeginsDivided (signature.renderArguments args ++ rest) := by
  cases args with
  | nil => exact ends.beginsDivided
  | cons first others =>
      rintro c ⟨⟩
      rfl

section

variable {args others : List Term} (identifies : ∀ t ∈ args, signature.Identifies t)
  (ground : ∀ t ∈ others, signature.HasGround t) {rest otherRest : List Char}

include identifies ground

/-- A comma or the closing parenthesis shows where an argument ends. -/
theorem renderOthers_inj
    (same : signature.renderOthers args ++ ')' :: rest =
      signature.renderOthers others ++ ')' :: otherRest) :
    args = others ∧ rest = otherRest := by
  induction args generalizing others with
  | nil =>
      cases others with
      | nil => exact ⟨rfl, (List.cons.inj same).2⟩
      | cons t ts => cases (List.cons.inj same).1
  | cons s ss ih =>
      cases others with
      | nil => cases (List.cons.inj same).1
      | cons t ts =>
          obtain ⟨identifiesFirst, identifiesRest⟩ := List.forall_mem_cons.mp identifies
          obtain ⟨groundFirst, groundRest⟩ := List.forall_mem_cons.mp ground
          simp only [renderOthers, List.flatMap_cons, List.cons_append, List.append_assoc,
            List.cons.injEq, true_and] at same
          obtain ⟨rfl, sameRest⟩ := identifiesFirst groundFirst (endsPrinted_renderOthers ss rest)
            (endsPrinted_renderOthers ts otherRest) same
          obtain ⟨rfl, restSame⟩ := ih identifiesRest groundRest sameRest
          exact ⟨rfl, restSame⟩

theorem renderArguments_inj (ends : EndsPrinted rest) (otherEnds : EndsPrinted otherRest)
    (same : signature.renderArguments args ++ rest =
      signature.renderArguments others ++ otherRest) :
    args = others ∧ rest = otherRest := by
  cases args with
  | nil =>
      cases others with
      | nil => exact ⟨rfl, same⟩
      | cons t ts =>
          -- An opening parenthesis does not stand behind a term.
          have opens := ends '(' (congrArg List.head? same)
          simp at opens
  | cons s ss =>
      cases others with
      | nil =>
          have opens := otherEnds '(' (congrArg List.head? same).symm
          simp at opens
      | cons t ts =>
          -- But for the opening parenthesis, the arguments are printed as after a comma.
          refine renderOthers_inj identifies ground ?_
          simpa [renderArguments, renderOthers] using same

end

/-- Where name and arity tell function symbols apart, the text of a ground term belongs to no other
ground term. -/
theorem TellsApart.identifies (tellsApart : signature.TellsApart) {s : Term}
    (ground : signature.HasGround s) : signature.Identifies s := by
  obtain ⟨isOver, isGround⟩ := ground
  induction isOver with
  | var bound => cases isGround
  | @app f args bound arity argsOver ih =>
      rw [Term.isGround, Term.areGround_eq, List.all_eq_true] at isGround
      intro t otherGround rest otherRest ends otherEnds same
      cases t with
      | var v => cases otherGround.isGround
      | app g others =>
          obtain ⟨otherBound, otherArity, othersGround⟩ := otherGround.of_app
          rw [toList_renderTerm_app, toList_renderTerm_app, List.append_assoc,
            List.append_assoc] at same
          obtain ⟨sameName, sameArguments⟩ :=
            (tellsApart.isUndivided bound).append_inj (tellsApart.isUndivided otherBound)
              (beginsDivided_renderArguments args ends)
              (beginsDivided_renderArguments others otherEnds) same
          obtain ⟨rfl, sameRest⟩ := renderArguments_inj
            (fun t mem => ih t mem (isGround t mem)) othersGround ends otherEnds sameArguments
          have sameSymbol : f = g := @function_inj signature (fun _ => True) (tellsApart.apart.imp
            fun differ _ => differ) f g bound otherBound trivial (String.toList_inj.mp sameName)
            (arity.symm.trans otherArity)
          exact ⟨congrArg (Term.app · args) sameSymbol, sameRest⟩

/-- Ground terms with the same text are the same. -/
theorem TellsApart.renderTerm_inj (tellsApart : signature.TellsApart) {s t : Term}
    (sGround : signature.HasGround s) (tGround : signature.HasGround t)
    (same : signature.renderTerm s = signature.renderTerm t) : s = t := by
  have nothing : EndsPrinted [] := nofun
  exact (tellsApart.identifies sGround tGround nothing nothing (congrArg (·.toList ++ []) same)).1

/-- Tuples of ground terms with the same texts are the same. -/
theorem TellsApart.map_renderTerm_inj (tellsApart : signature.TellsApart) {tuple other : List Term}
    (ground : ∀ t ∈ tuple, signature.HasGround t) (otherGround : ∀ t ∈ other, signature.HasGround t)
    (same : tuple.map signature.renderTerm = other.map signature.renderTerm) : tuple = other := by
  induction tuple generalizing other with
  | nil => exact (List.map_eq_nil_iff.mp same.symm).symm
  | cons s ss ih =>
      obtain ⟨t, ts, rfl, sameFirst, sameRest⟩ := List.map_eq_cons_iff.mp same.symm
      obtain ⟨sGround, restGround⟩ := List.forall_mem_cons.mp ground
      obtain ⟨tGround, otherRestGround⟩ := List.forall_mem_cons.mp otherGround
      rw [tellsApart.renderTerm_inj sGround tGround sameFirst.symm,
        ih restGround otherRestGround sameRest.symm]

end Signature

end Entailment.FirstOrder

/-! ## Answers -/

namespace Entailment.Answers

/-- Collect some tuples of texts one after the other. -/
def addAll (tuples : List (List String)) (answers : Answers) : Except Error Answers :=
  tuples.foldlM (fun answers tuple => (answers.add tuple).map Prod.snd) answers

/-- Tuples of the right length are collected without repetition. -/
theorem addAll_spec {tuples : List (List String)} {answers : Answers}
    (fits : ∀ tuple ∈ tuples, tuple.length = answers.arity)
    (increasing : Sorted.IsIncreasing answers.tuples) :
    ∃ after, answers.addAll tuples = .ok after ∧ Sorted.IsIncreasing after.tuples ∧
      ∀ tuple, tuple ∈ after.tuples ↔ tuple ∈ answers.tuples ∨ tuple ∈ tuples := by
  induction tuples generalizing answers with
  | nil => exact ⟨answers, rfl, increasing, by simp⟩
  | cons first rest ih =>
      obtain ⟨fitsFirst, fitsRest⟩ := List.forall_mem_cons.mp fits
      obtain ⟨after, collected, afterIncreasing, members⟩ :=
        @ih { answers with tuples := Sorted.insert first answers.tuples } fitsRest
          (Sorted.isIncreasing_insert first increasing)
      refine ⟨after, ?_, afterIncreasing, fun tuple => ?_⟩
      · have added : answers.add first = .ok (!Sorted.contains answers.tuples first,
            { answers with tuples := Sorted.insert first answers.tuples }) := by
          simp [add, fitsFirst]
        rw [addAll, List.foldlM_cons, added]
        exact collected
      · rw [members, Sorted.mem_insert, List.mem_cons, or_assoc, or_left_comm]

end Entailment.Answers

namespace Entailment.FirstOrder

open Monitored (exists_run)

/-- In every knowledge base that a conversation reaches, ground terms with the same text are the
same, whether there are Skolem functions in them or not.  So collecting tuples of ground terms by
their texts leaves as many of them as there are different ones, and a tuple is found among the
answers exactly when it was collected. -/
theorem ground_answers_told_apart (config : Config) (requests : List Request)
    {conversation : Conversation}
    (reached : (Conversation.answerAll requests (.start config)).Returns conversation) :
    let signature := conversation.kb.signature
    (∀ s t, signature.HasGround s → signature.HasGround t →
      signature.renderTerm s = signature.renderTerm t → s = t) ∧
    ∀ (vars : List String) (tuples : List (List Term)),
      (∀ tuple ∈ tuples, tuple.length = vars.length ∧ ∀ t ∈ tuple, signature.HasGround t) →
        ∃ answers, (Answers.start vars).addAll (tuples.map (List.map signature.renderTerm)) =
            .ok answers ∧
          answers.size = tuples.dedup.length ∧
          ∀ tuple, (∀ t ∈ tuple, signature.HasGround t) →
            (answers.contains (tuple.map signature.renderTerm) = true ↔ tuple ∈ tuples) := by
  intro signature
  have tellsApart : signature.TellsApart := Conversation.tellsApart_answerAll reached
  refine ⟨fun s t sGround tGround => tellsApart.renderTerm_inj sGround tGround,
    fun vars tuples ground => ?_⟩
  have injOn {tuple other : List Term} (mem : tuple ∈ tuples)
      (otherGround : ∀ t ∈ other, signature.HasGround t)
      (same : tuple.map signature.renderTerm = other.map signature.renderTerm) : tuple = other :=
    tellsApart.map_renderTerm_inj (ground tuple mem).2 otherGround same
  obtain ⟨answers, collected, increasing, members⟩ :=
    @Answers.addAll_spec (tuples.map (List.map signature.renderTerm)) (.start vars)
      (by simpa [Answers.arity, Answers.start] using fun tuple mem => (ground tuple mem).1) .nil
  have mem_iff (texts : List String) : texts ∈ answers.tuples ↔
      ∃ tuple ∈ tuples, tuple.map signature.renderTerm = texts := by
    rw [members, List.mem_map]
    simp [Answers.start]
  refine ⟨answers, collected, ?_, fun tuple tupleGround => ?_⟩
  · have printedNodup : (tuples.dedup.map (List.map signature.renderTerm)).Nodup :=
      (List.nodup_dedup tuples).map_on fun tuple mem other otherMem =>
        injOn (List.mem_dedup.mp mem) (ground other (List.mem_dedup.mp otherMem)).2
    have perm : answers.tuples.Perm (tuples.dedup.map (List.map signature.renderTerm)) :=
      (List.perm_ext_iff_of_nodup increasing.nodup printedNodup).mpr fun texts => by
        rw [mem_iff, List.mem_map]
        simp
    rw [Answers.size, perm.length_eq, List.length_map]
  · rw [Answers.contains, List.contains_iff_mem, mem_iff]
    constructor
    · rintro ⟨other, mem, same⟩
      exact injOn mem tupleGround same ▸ mem
    · intro mem
      exact ⟨tuple, mem, rfl⟩

/-- After two formulas with existential quantifiers, the text `sk#2(sk#1)` belongs to one ground
term only.  It is collected twice together with `sk#2(f(a))`, and two answers are found. -/
theorem ground_answers_told_apart_skolem :
    ∃ conversation, (Conversation.answerAll
        [.tell "!E ?x p(?x)", .tell "!A ?x !E ?y q(?x, ?y)", .tell "p(f(a))"]
        (.start .default)).Returns conversation ∧
      (∀ t, conversation.kb.signature.HasGround t →
        conversation.kb.signature.renderTerm t = "sk#2(sk#1)" → t = .app ⟨1⟩ [.app ⟨0⟩ []]) ∧
      ∃ answers, (Answers.start ["x"]).addAll [["sk#2(sk#1)"], ["sk#2(f(a))"], ["sk#2(sk#1)"]] =
          .ok answers ∧ answers.size = 2 := by
  obtain ⟨conversation, done, reached⟩ := exists_run (Conversation.answerAll
    [.tell "!E ?x p(?x)", .tell "!A ?x !E ?y q(?x, ?y)", .tell "p(f(a))"] (.start .default))
  have functions : conversation.kb.signature.functions =
      #[⟨"sk#1", 0, true⟩, ⟨"sk#2", 1, true⟩, ⟨"a", 0, false⟩, ⟨"f", 1, false⟩] := by
    rw [← done]
    cbv
  let nested : Term := .app ⟨1⟩ [.app ⟨0⟩ []]
  let other : Term := .app ⟨1⟩ [.app ⟨3⟩ [.app ⟨2⟩ []]]
  have nestedGround : conversation.kb.signature.HasGround nested := by
    simp [nested, Signature.hasGround_iff, Signature.functionInfo, functions, Term.isGround,
      Term.areGround]
  have otherGround : conversation.kb.signature.HasGround other := by
    simp [other, Signature.hasGround_iff, Signature.functionInfo, functions, Term.isGround,
      Term.areGround]
  have nestedText : conversation.kb.signature.renderTerm nested = "sk#2(sk#1)" := by
    simp [nested, Signature.renderTerm, Signature.functionInfo, functions, parenthesize]
  have otherText : conversation.kb.signature.renderTerm other = "sk#2(f(a))" := by
    simp [other, Signature.renderTerm, Signature.functionInfo, functions, parenthesize]
  obtain ⟨inj, collects⟩ := ground_answers_told_apart .default _ reached
  obtain ⟨answers, collected, size, -⟩ :=
    collects ["x"] [[nested], [other], [nested]] (by simp [nestedGround, otherGround])
  simp only [List.map_cons, List.map_nil, nestedText, otherText] at collected
  exact ⟨conversation, reached,
    fun t ground text => inj t nested ground nestedGround (text.trans nestedText.symm),
    answers, collected, size.trans (by decide)⟩

end Entailment.FirstOrder
