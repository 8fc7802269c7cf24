import Entailment.Proofs.Dimacs.RoundTrip
import Entailment.Proofs.Propositional.Numbering
import Entailment.Proofs.Runs
import Entailment.Proofs.Sat.SearchDecides

/-!
# Deciding propositional entailment

The clauses of a propositional knowledge base say together what it has been
told.  The problem of a query says that what was told holds and the query does
not, so it is unsatisfiable exactly when the query is entailed.  The search reads
this problem back from its text and decides it, so that a query always gets its
answer.

The text declares how many variables and clauses it has, and a reader takes
these counts from a word of 32 and of 64 bits.  This is the only limit.
-/

namespace Entailment.Propositional

open Monitored (always_iff returns_bind exists_run)

/-- A proposition is true in every world in which the premises are. -/
def Entails (premises : List Proposition) (query : Proposition) : Prop :=
  ∀ world, (∀ premise ∈ premises, Proposition.Holds world premise) → query.Holds world

/-- A problem with names that is well formed and is unsatisfiable exactly when
the query follows from the premises. -/
structure NamedProblem.IsQuestion (named : NamedProblem) (premises : List Proposition)
    (query : Proposition) : Prop where
  declared : ∀ clause ∈ named.problem.clauses, ∀ literal ∈ clause,
    0 < literal.atom ∧ literal.atom ≤ named.problem.variableCount
  oneLine : ∀ entry ∈ named.names, '\n' ∉ entry.2.toList
  unsatisfiable_iff :
    (∀ truth, ¬ClauseSet.Holds truth named.problem.clauses) ↔ Entails premises query

/-- The search answers the question of a problem from its text. -/
theorem NamedProblem.IsQuestion.search {named : NamedProblem} {premises : List Proposition}
    {query : Proposition} (question : named.IsQuestion premises query)
    (fewVariables : named.problem.variableCount ≤ Text.largest32)
    (fewClauses : named.problem.clauses.length ≤ Text.largest64) :
    ∃ verdict, Oracle.search named.render = .ok verdict ∧
      (verdict = .unsatisfiable ↔ Entails premises query) := by
  have read : Dimacs.Problem.parse named.render = .ok named.problem :=
    Dimacs.Problem.parse_render question.declared fewVariables fewClauses question.oneLine
  obtain ⟨verdict, count, decided, correct⟩ :=
    Sat.decideProblem_spec fun clause mem literal literalMem =>
      (question.declared clause mem literal literalMem).2
  refine ⟨verdict, ?_, correct.trans question.unsatisfiable_iff⟩
  simp only [Oracle.search, Sat.decideText, read, decided, Except.map]

/-- A verdict of the search is right, whatever the counts of the problem are: a
text with larger counts than the reader has words for is refused. -/
theorem NamedProblem.IsQuestion.unsatisfiable_iff_of_search {named : NamedProblem}
    {premises : List Proposition} {query : Proposition}
    (question : named.IsQuestion premises query) {verdict : Sat.Verdict}
    (answered : Oracle.search named.render = .ok verdict) :
    verdict = .unsatisfiable ↔ Entails premises query := by
  cases read : Dimacs.Problem.parse named.render with
  | error error => simp [Oracle.search, Sat.decideText, read, Except.map] at answered
  | ok problem =>
      obtain ⟨fewVariables, fewClauses⟩ :=
        Dimacs.Problem.few_of_parse_render question.oneLine read
      obtain ⟨other, otherAnswered, correct⟩ := question.search fewVariables fewClauses
      cases answered.symm.trans otherAnswered
      exact correct

namespace KnowledgeBase

variable {oracle : Oracle}

/-- The clauses of a knowledge base are over its vocabulary and say what it has
been told. -/
structure IsSound (told : List Proposition) (kb : KnowledgeBase) : Prop where
  written : kb.vocabulary.IsWritten
  describes : kb.vocabulary.Describes kb.clauses
    fun world => ∀ premise ∈ told, Proposition.Holds world premise

theorem isSound_empty : empty.IsSound [] :=
  ⟨Vocabulary.isWritten_empty, by simp [empty], by simp [empty, ClauseSet.Holds]⟩

variable {ε : Type} {told : List Proposition} {kb after : KnowledgeBase} {text : String}

/-- A formula whose text can be read is accepted, and is then described by the
clauses along with what was told before. -/
theorem IsSound.exists_tell {formula : Proposition} (sound : kb.IsSound told)
    (parsed : Proposition.parse text = .ok formula) :
    ∃ after, kb.tell text = .ok after ∧ after.IsSound (told ++ [formula]) := by
  obtain ⟨afterWritten, extended, numbers⟩ :=
    Vocabulary.internFormula_spec sound.written (isWritten_of_parse parsed)
  obtain ⟨clauses, done, describes⟩ := numbers.describes false
  have both := (sound.describes.extend extended).union describes
  refine ⟨_, by simp only [KnowledgeBase.tell, parsed, done, bind, Except.bind]; rfl,
    afterWritten, both.declared, fun agree => ?_⟩
  rw [both.holds_iff agree]
  simp [or_imp, forall_and]

/-- A formula is accepted only when its text can be read. -/
theorem IsSound.tell (sound : kb.IsSound told) (accepted : kb.tell text = .ok after) :
    ∃ formula, Proposition.parse text = .ok formula ∧ after.IsSound (told ++ [formula]) := by
  cases parsed : Proposition.parse text with
  | error error => simp [KnowledgeBase.tell, parsed, bind, Except.bind] at accepted
  | ok formula =>
      obtain ⟨_, isAfter, afterSound⟩ := sound.exists_tell parsed
      cases accepted.symm.trans isAfter
      exact ⟨formula, rfl, afterSound⟩

/-- The problem of a query asks whether the query is entailed. -/
theorem IsSound.dimacs {query : Proposition} (sound : kb.IsSound told)
    (parsed : Proposition.parse text = .ok query) :
    ∃ named, kb.dimacs text = .ok named ∧ named.IsQuestion told query ∧
      named.problem.variableCount = (kb.vocabulary.internFormula query).2.size := by
  obtain ⟨afterWritten, extended, numbers⟩ :=
    Vocabulary.internFormula_spec sound.written (isWritten_of_parse parsed)
  obtain ⟨negated, done, describes⟩ := numbers.describes true
  have both := describes.union (sound.describes.extend extended)
  refine ⟨_, by simp only [KnowledgeBase.dimacs, parsed, done, bind, Except.bind]; rfl,
    ⟨fun clause mem literal literalMem => ?_, fun entry mem => ?_, ?_⟩, rfl⟩
  · exact Vocabulary.isSome_name?.mp (both.declared clause mem literal literalMem)
  · exact (afterWritten.word (Vocabulary.name?_of_mem_toList mem)).lineFeed_not_mem
  · rw [both.unsatisfiable_iff afterWritten]
    simp only [inverted_true, not_and', not_not, Entails]

/-- What `ask` returns is the verdict of the oracle on the problem of the query,
with a knowledge base that differs in its statistics only. -/
theorem ask_returns {result : Except Error (Bool × KnowledgeBase)}
    (returned : (kb.ask oracle text : Monitored ε _).Returns result) :
    ∃ statistics, result = do
      let named ← kb.dimacs text
      let verdict ← oracle named.render
      return (decide (verdict = .unsatisfiable), { kb with statistics := statistics }) := by
  unfold KnowledgeBase.ask at returned
  obtain ⟨start, _, returned⟩ := (returns_bind ..).mp returned
  split at returned
  · rename_i unread
    cases returned
    exact ⟨.start, by rw [unread]; rfl⟩
  · rename_i named isNamed
    split at returned
    · rename_i unanswered
      cases returned
      exact ⟨.start, by rw [isNamed]; simp only [bind, Except.bind, unanswered]⟩
    · rename_i verdict answered
      obtain ⟨stop, _, returned⟩ := (returns_bind ..).mp returned
      cases returned
      exact ⟨_, by rw [isNamed]; simp only [bind, Except.bind, answered]; rfl⟩

/-- The bindings of a query are the answer of `ask` as a table. -/
theorem askBindings_returns {result : Except Error (Answers × KnowledgeBase)} :
    (kb.askBindings oracle text : Monitored ε _).Returns result ↔
      ∃ asked, (kb.ask oracle text : Monitored ε _).Returns asked ∧
        asked.map (fun entry => (⟨[], if entry.1 then [[]] else []⟩, entry.2)) = result := by
  unfold KnowledgeBase.askBindings
  rw [returns_bind]
  apply exists_congr
  intro asked
  apply and_congr_right
  intro _
  match asked with
  | .error error => rfl
  | .ok (true, after) => rfl
  | .ok (false, after) => rfl

/-- Asking changes the statistics only. -/
theorem IsSound.ask {entailed : Bool} (sound : kb.IsSound told)
    (returned : (kb.ask oracle text : Monitored ε _).Returns (.ok (entailed, after))) :
    after.IsSound told := by
  obtain ⟨statistics, isResult⟩ := ask_returns returned
  cases isNamed : kb.dimacs text with
  | error error => simp [isNamed, bind, Except.bind] at isResult
  | ok named =>
      cases answered : oracle named.render with
      | error error => simp [isNamed, answered, bind, Except.bind] at isResult
      | ok verdict =>
          simp only [isNamed, answered, bind, Except.bind, pure, Except.pure, Except.ok.injEq,
            Prod.mk.injEq] at isResult
          rw [isResult.2]
          exact ⟨sound.written, sound.describes⟩

theorem IsSound.askBindings {answers : Answers} (sound : kb.IsSound told)
    (returned : (kb.askBindings oracle text : Monitored ε _).Returns (.ok (answers, after))) :
    after.IsSound told := by
  obtain ⟨asked, askReturned, isResult⟩ := askBindings_returns.mp returned
  match asked with
  | .error error => cases isResult
  | .ok (entailed, kb) =>
      cases isResult
      exact sound.ask askReturned

end KnowledgeBase

/-- A request to a knowledge base. -/
inductive Request where
  | tell (text : String)
  | ask (text : String)
  | askBindings (text : String)
  deriving DecidableEq, Repr

/-- A knowledge base with the formulas it was told and has accepted, in order. -/
structure Conversation where
  kb : KnowledgeBase
  told : List Proposition

namespace Conversation

variable {ε : Type}

/-- The conversation before the first request. -/
def start : Conversation := ⟨.empty, []⟩

/-- The conversation after a request, which is answered by the search. -/
def answer (request : Request) (conversation : Conversation) : Monitored ε Conversation :=
  match request with
  | .tell text =>
      match conversation.kb.tell text, Proposition.parse text with
      | .ok kb, .ok formula => return ⟨kb, conversation.told ++ [formula]⟩
      | _, _ => return conversation
  | .ask text => do
      match ← conversation.kb.ask .search text with
      | .ok (_, kb) => return { conversation with kb := kb }
      | .error _ => return conversation
  | .askBindings text => do
      match ← conversation.kb.askBindings .search text with
      | .ok (_, kb) => return { conversation with kb := kb }
      | .error _ => return conversation

/-- The conversation after some requests. -/
def answerAll : List Request → Conversation → Monitored ε Conversation
  | [], conversation => return conversation
  | request :: rest, conversation => do answerAll rest (← conversation.answer request)

/-- The clauses say what was told. -/
abbrev IsSound (conversation : Conversation) : Prop :=
  conversation.kb.IsSound conversation.told

/-- A request keeps a conversation sound. -/
theorem isSound_answer {request : Request} {conversation after : Conversation}
    (sound : conversation.IsSound)
    (returned : (conversation.answer request : Monitored ε _).Returns after) :
    after.IsSound := by
  cases request with
  | tell text =>
      unfold answer at returned
      cases told : conversation.kb.tell text with
      | error error =>
          simp only [told] at returned
          cases returned
          exact sound
      | ok kb =>
          obtain ⟨formula, parsed, kbSound⟩ := sound.tell told
          simp only [told, parsed] at returned
          cases returned
          exact kbSound
  | ask text =>
      obtain ⟨result, asked, returned⟩ := (returns_bind ..).mp returned
      cases result with
      | error error =>
          cases returned
          exact sound
      | ok entry =>
          cases returned
          exact KnowledgeBase.IsSound.ask sound asked
  | askBindings text =>
      obtain ⟨result, asked, returned⟩ := (returns_bind ..).mp returned
      cases result with
      | error error =>
          cases returned
          exact sound
      | ok entry =>
          cases returned
          exact KnowledgeBase.IsSound.askBindings sound asked

/-- A sequence of requests keeps a conversation sound. -/
theorem isSound_answerAll {requests : List Request} {conversation after : Conversation}
    (sound : conversation.IsSound)
    (returned : (answerAll requests conversation : Monitored ε _).Returns after) :
    after.IsSound := by
  induction requests generalizing conversation with
  | nil =>
      cases returned
      exact sound
  | cons request rest ih =>
      obtain ⟨next, answered, returned⟩ := (returns_bind ..).mp returned
      exact ih (isSound_answer sound answered) returned

end Conversation

/-- Whatever has been told and asked before, a query that can be read is decided:
asking says whether it is entailed by the accepted formulas, and its bindings are
one empty tuple or none.  No reading of the clock leads to an error.  The names
of what was told and of the query are counted in 32 bits, and the clauses of the
problem in 64. -/
theorem ask_decides_entailment {ε : Type} (requests : List Request) {conversation : Conversation}
    (reached : (Conversation.answerAll requests .start : Monitored ε _).Returns conversation)
    {text : String} {query : Proposition} (parsed : Proposition.parse text = .ok query)
    (fewNames : (conversation.kb.vocabulary.internFormula query).2.size ≤ Text.largest32)
    (fewClauses : ∀ named, conversation.kb.dimacs text = .ok named →
      named.problem.clauses.length ≤ Text.largest64) :
    ∃ entailed : Bool, (entailed = true ↔ Entails conversation.told query) ∧
      (conversation.kb.ask .search text : Monitored ε _).Always
        (fun result => ∃ after, result = .ok (entailed, after)) ∧
      (conversation.kb.askBindings .search text : Monitored ε _).Always fun result =>
        ∃ after, result = .ok (⟨[], if entailed then [[]] else []⟩, after) := by
  have sound := Conversation.isSound_answerAll KnowledgeBase.isSound_empty reached
  obtain ⟨named, isNamed, question, isCount⟩ := sound.dimacs parsed
  obtain ⟨verdict, answered, correct⟩ :=
    question.search (isCount ▸ fewNames) (fewClauses named isNamed)
  have asks (result)
      (returned : (conversation.kb.ask .search text : Monitored ε _).Returns result) :
      ∃ after, result = .ok (decide (verdict = .unsatisfiable), after) := by
    obtain ⟨statistics, isResult⟩ := KnowledgeBase.ask_returns returned
    simp only [isNamed, answered, bind, Except.bind] at isResult
    exact ⟨_, isResult⟩
  refine ⟨decide (verdict = .unsatisfiable), by rw [decide_eq_true_iff, correct],
    (always_iff _).mpr asks, (always_iff _).mpr fun result returned => ?_⟩
  obtain ⟨asked, askReturned, rfl⟩ := KnowledgeBase.askBindings_returns.mp returned
  obtain ⟨after, rfl⟩ := asks asked askReturned
  exact ⟨after, rfl⟩

/-- An implication, two texts that are refused and the premise of the implication,
and then a query that is entailed and names something new. -/
theorem ask_decides_entailment_detachment :
    ∃ conversation,
      (Conversation.answerAll [.tell "a => b", .tell "a ^", .ask "b |", .tell "a"]
        .start : Monitored Unit _).Returns conversation ∧
      Proposition.parse "b | ~c" = .ok (.binary .or (.atom "b") (.not (.atom "c"))) ∧
      Entails conversation.told (.binary .or (.atom "b") (.not (.atom "c"))) ∧
      (conversation.kb.ask .search "b | ~c" : Monitored Unit _).Always
        (fun result => ∃ after, result = .ok (true, after)) ∧
      (conversation.kb.askBindings .search "b | ~c" : Monitored Unit _).Always fun result =>
        ∃ after, result = .ok (⟨[], [[]]⟩, after) := by
  obtain ⟨conversation, done, reached⟩ := exists_run (Conversation.answerAll
    [.tell "a => b", .tell "a ^", .ask "b |", .tell "a"] .start : Monitored Unit _)
  have parsed : Proposition.parse "b | ~c" = .ok (.binary .or (.atom "b") (.not (.atom "c"))) := by
    cbv
  have told : conversation.told =
      [.binary .implies (.atom "a") (.atom "b"), .atom "a"] := by
    rw [← done]
    cbv
  have names : (conversation.kb.vocabulary.internFormula
      (.binary .or (.atom "b") (.not (.atom "c")))).2.size = 3 := by
    rw [← done]
    cbv
  have clauses : (conversation.kb.dimacs "b | ~c").map
      (fun named => named.problem.clauses.length) = .ok 4 := by
    rw [← done]
    cbv
  have entails : Entails conversation.told (.binary .or (.atom "b") (.not (.atom "c"))) := by
    rw [told]
    simp +contextual [Entails, Proposition.Holds, Formula.Holds, Connective.Holds]
  obtain ⟨entailed, correct, asked, answered⟩ := ask_decides_entailment _ reached parsed
    (by simp [names, Text.largest32]) fun named isNamed => by
      rw [isNamed] at clauses
      simp only [Except.map, Except.ok.injEq] at clauses
      simp [clauses, Text.largest64]
  obtain rfl := correct.mpr entails
  simp only [if_true] at answered
  exact ⟨conversation, reached, parsed, entails, asked, answered⟩

/-- Whatever has been told and asked before, a query that can be read has a problem
whose variables are the names of what was told and of the query, and the written
problem is read back: with the same number of variables and the same clauses, and in
them the same literals in order.  This holds exactly when the variables are counted
in 32 bits and the clauses in 64. -/
theorem written_problem_read_back {ε : Type} (requests : List Request)
    {conversation : Conversation}
    (reached : (Conversation.answerAll requests .start : Monitored ε _).Returns conversation)
    {text : String} {query : Proposition} (parsed : Proposition.parse text = .ok query) :
    ∃ named, conversation.kb.dimacs text = .ok named ∧
      named.problem.variableCount = (conversation.kb.vocabulary.internFormula query).2.size ∧
      (∀ clause ∈ named.problem.clauses, ∀ literal ∈ clause,
        0 < literal.atom ∧ literal.atom ≤ named.problem.variableCount) ∧
      (Dimacs.Problem.parse named.render = .ok named.problem ↔
        named.problem.variableCount ≤ Text.largest32 ∧
          named.problem.clauses.length ≤ Text.largest64) := by
  have sound := Conversation.isSound_answerAll KnowledgeBase.isSound_empty reached
  obtain ⟨named, isNamed, question, isCount⟩ := sound.dimacs parsed
  refine ⟨named, isNamed, isCount, question.declared, ?_, ?_⟩
  · exact Dimacs.Problem.few_of_parse_render question.oneLine
  · rintro ⟨fewVariables, fewClauses⟩
    exact Dimacs.Problem.parse_render question.declared fewVariables fewClauses question.oneLine

/-- Names that look like parts of a problem, and a query with an empty clause. -/
theorem written_problem_read_back_empty_clause :
    ∃ conversation named,
      (Conversation.answerAll
        [.tell "p => 0", .tell "%cnf |", .ask "p p", .tell "%cnf | ~c"]
        .start : Monitored Unit _).Returns conversation ∧
      Proposition.parse "T" = .ok (.truth true) ∧
      conversation.kb.dimacs "T" = .ok named ∧
      named.problem =
        ⟨4, [[], [.negative 1, .positive 2], [.positive 3, .negative 4]]⟩ ∧
      Dimacs.Problem.parse named.render = .ok named.problem := by
  obtain ⟨conversation, done, reached⟩ := exists_run (Conversation.answerAll
    [.tell "p => 0", .tell "%cnf |", .ask "p p", .tell "%cnf | ~c"] .start : Monitored Unit _)
  have parsed : Proposition.parse "T" = .ok (.truth true) := by cbv
  obtain ⟨named, isNamed, -, -, readBack⟩ := written_problem_read_back _ reached parsed
  have isProblem : (conversation.kb.dimacs "T").map NamedProblem.problem =
      .ok ⟨4, [[], [.negative 1, .positive 2], [.positive 3, .negative 4]]⟩ := by
    rw [← done]
    cbv
  rw [isNamed] at isProblem
  simp only [Except.map, Except.ok.injEq] at isProblem
  refine ⟨conversation, named, reached, parsed, isNamed, isProblem, readBack.mpr ?_⟩
  rw [isProblem]
  decide

end Entailment.Propositional
