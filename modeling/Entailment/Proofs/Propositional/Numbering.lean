import Entailment.Proofs.Formula.ClausalTruth
import Entailment.Proofs.Text.Layout
import Entailment.Propositional.KnowledgeBase

/-!
# Names and their numbers

A proposition is true or false once its names are.  Two facts connect the names
of a proposition with the numbers that stand for them in a problem.

* A name that is read from a text is a word, because a blank ends it.  A name
  therefore fits on a line.
* Numbering the names of a proposition only adds names to the vocabulary, gives
  different names different numbers, and keeps the meaning: the numbered formula
  is true in the same cases as the proposition, when a number and its name have
  the same truth value.

`Vocabulary.Describes` says the same of clauses over the numbers: they are true
exactly in the worlds with a given property.
-/

namespace Entailment

namespace Formula

variable {β α : Type} {property : List β → α → Prop} {bound : List β}

theorem EveryAtom.foldRight? {connective : Connective} {operands : List (Formula β α)}
    (every : ∀ operand ∈ operands, operand.EveryAtom property bound) {folded : Formula β α}
    (isFold : Formula.foldRight? connective operands = some folded) :
    folded.EveryAtom property bound := by
  induction operands generalizing folded with
  | nil => cases isFold
  | cons operand rest ih =>
      obtain ⟨first, others⟩ := List.forall_mem_cons.mp every
      unfold Formula.foldRight? at isFold
      split at isFold
      · cases isFold
        exact first
      · cases isFold
        rename_i foldedRest isRest
        exact ⟨first, ih others isRest⟩

/-- The atoms of a fold with a default truth value are atoms of the operands. -/
theorem EveryAtom.foldRight_getD {connective : Connective} {operands : List (Formula β α)}
    (every : ∀ operand ∈ operands, operand.EveryAtom property bound) (value : Bool) :
    ((Formula.foldRight? connective operands).getD (.truth value)).EveryAtom property bound := by
  cases isFold : Formula.foldRight? connective operands with
  | none => trivial
  | some folded => exact EveryAtom.foldRight? every isFold

theorem EveryAtom.implication {operands : List (Formula β α)}
    (every : ∀ operand ∈ operands, operand.EveryAtom property bound) :
    (Formula.implication operands).EveryAtom property bound := by
  unfold Formula.implication
  split
  · trivial
  · rename_i consequent isLast
    have lastEvery := every consequent (List.mem_of_getLast? isLast)
    split
    · exact lastEvery
    · exact ⟨foldRight_getD (fun operand mem => every operand (List.dropLast_subset _ mem)) true,
        lastEvery⟩

end Formula

namespace Propositional

/-- The truth of a proposition in a world, which says which names are true. -/
def Proposition.Holds (world : String → Prop) (formula : Proposition) : Prop :=
  Formula.Holds (fun (_ : Empty → Unit) name => world name) (fun _ => ()) formula

/-- All names of a proposition are words. -/
def Proposition.IsWritten (formula : Proposition) : Prop :=
  formula.EveryAtom (fun _ name => Text.IsWord name.toList) []

namespace Level

variable {level : Level} {position : Nat}

/-- What has been read of a level has words for names. -/
structure IsWritten (level : Level) : Prop where
  operands : ∀ operand ∈ level.operands, Proposition.IsWritten operand
  name : ∀ chars, level.name = some chars → Text.IsWord chars

theorem isWritten_start : start.IsWritten := ⟨by simp [start], by simp [start]⟩

theorem IsWritten.push (written : level.IsWritten) {operand : Proposition}
    (operandWritten : operand.IsWritten) : (level.push operand).IsWritten := by
  refine ⟨List.forall_mem_cons.mpr ⟨?_, written.operands⟩, written.name⟩
  split <;> exact operandWritten

theorem IsWritten.endName {after : Level} (written : level.IsWritten)
    (ended : level.endName position = .ok after) : after.IsWritten := by
  unfold Level.endName at ended
  split at ended
  · rename_i chars isName
    cases ended
    have isWord := written.name chars isName
    have unnamed : IsWritten { level with name := none } := ⟨written.operands, by simp⟩
    apply unnamed.push
    simp only [Proposition.IsWritten, Formula.EveryAtom, String.toList_ofList]
    exact ⟨fun isNil => isWord.nonempty (List.reverse_eq_nil_iff.mp isNil),
      fun c mem => isWord.noBlank c (List.mem_reverse.mp mem)⟩
  · split at ended
    · cases ended
    · cases ended
      exact written

theorem IsWritten.addConnective {after : Level} {connective : Connective}
    (written : level.IsWritten) (added : level.addConnective connective position = .ok after) :
    after.IsWritten := by
  unfold Level.addConnective at added
  cases ended : level.endName position with
  | error error =>
      rw [ended] at added
      cases added
  | ok named =>
      have namedWritten := written.endName ended
      simp only [ended, bind, Except.bind] at added
      split at added
      · cases added
        exact ⟨namedWritten.operands, namedWritten.name⟩
      · split at added
        · cases added
          exact ⟨namedWritten.operands, namedWritten.name⟩
        · cases added

theorem IsWritten.finish {formula : Proposition} (written : level.IsWritten)
    (finished : level.finish position = .ok formula) : formula.IsWritten := by
  unfold Level.finish at finished
  cases ended : level.endName position with
  | error error =>
      rw [ended] at finished
      cases finished
  | ok named =>
      have operands : ∀ operand ∈ named.operands.reverse, Proposition.IsWritten operand := by
        simpa using (written.endName ended).operands
      simp only [ended, bind, Except.bind] at finished
      generalize named.operands.reverse = operandList at operands finished
      split at finished
      · split at finished
        · cases finished
          exact operands _ (List.mem_singleton_self _)
        · cases finished
      · split at finished
        · cases finished
        · split at finished
          · cases finished
            exact Formula.EveryAtom.foldRight_getD operands true
          · cases finished
            exact Formula.EveryAtom.foldRight_getD operands false
          · cases finished
            exact Formula.EveryAtom.implication operands
          · split at finished
            · cases finished
              exact ⟨operands _ (by simp), operands _ (by simp)⟩
            · cases finished

end Level

/-- The names that are read from the rest of a text are words, when those of the
open levels are. -/
theorem isWritten_of_readLevels {level : Level} {outer : List Level} {position : Nat}
    {chars : List Char} {formula : Proposition} (written : level.IsWritten)
    (outerWritten : ∀ around ∈ outer, around.IsWritten)
    (read : readLevels level outer position chars = .ok formula) : formula.IsWritten := by
  -- Every step that does not fail goes on with levels that are still written.
  fun_induction readLevels level outer position chars with
  | case1 => exact written.finish read
  | case4 _ _ _ _ _ ih =>
      exact ih Level.isWritten_start (List.forall_mem_cons.mpr ⟨written, outerWritten⟩) read
  | case7 _ _ _ _ _ _ finished ih =>
      obtain ⟨parentWritten, othersWritten⟩ := List.forall_mem_cons.mp outerWritten
      exact ih (parentWritten.push (written.finish finished)) othersWritten read
  | case9 _ _ _ _ _ ih => exact ih ⟨written.operands, written.name⟩ outerWritten read
  | case11 _ _ _ _ _ added ih
  | case15 _ _ _ _ _ added ih
  | case18 _ _ _ _ _ added ih
  | case20 _ _ _ _ _ added ih => exact ih (written.addConnective added) outerWritten read
  | case22 =>
      rename_i ih
      exact ih (written.push trivial) outerWritten read
  | case24 =>
      rename_i ended ih
      exact ih (written.endName ended) outerWritten read
  | case25 level =>
      rename_i notBlank ih
      refine ih ⟨written.operands, fun chars isName => ?_⟩ outerWritten read
      cases isName
      refine ⟨by simp, List.forall_mem_cons.mpr ⟨Bool.eq_false_iff.mpr notBlank, ?_⟩⟩
      cases isName : level.name with
      | none => simp
      | some chars => exact (written.name chars isName).noBlank
  | _ => cases read

/-- The names of a proposition that is read are words. -/
theorem isWritten_of_parse {text : String} {formula : Proposition}
    (parsed : Proposition.parse text = .ok formula) : formula.IsWritten :=
  isWritten_of_readLevels Level.isWritten_start (by simp) parsed

namespace Vocabulary

variable {vocabulary larger : Vocabulary} {number : Nat} {name : String}

@[simp]
theorem name?_empty (number : Nat) : empty.name? number = none := by
  cases number <;> rfl

theorem name?_push (vocabulary : Vocabulary) (name : String) (number : Nat) :
    (⟨vocabulary.names.push name⟩ : Vocabulary).name? number =
      if number = vocabulary.size + 1 then some name else vocabulary.name? number := by
  cases number with
  | zero => simp [name?]
  | succ index => simp only [name?, size, Array.getElem?_push, Nat.add_right_cancel_iff]

theorem isSome_name? :
    (vocabulary.name? number).isSome ↔ 0 < number ∧ number ≤ vocabulary.size := by
  cases number with
  | zero => simp only [name?, Option.isSome_none, Bool.false_eq_true, Nat.lt_irrefl, false_and]
  | succ index =>
      simp only [name?, size, isSome_getElem?]
      omega

theorem name?_of_number? (found : vocabulary.number? name = some number) :
    vocabulary.name? number = some name := by
  obtain ⟨index, isIndex, rfl⟩ := Option.map_eq_some_iff.mp found
  obtain ⟨inside, isName, _⟩ := Array.findIdx?_eq_some_iff_getElem.mp isIndex
  simp only [name?, Array.getElem?_eq_getElem inside, eq_of_beq isName]

theorem name?_ne_of_number? (absent : vocabulary.number? name = none) :
    vocabulary.name? number ≠ some name := by
  intro isName
  have nowhere := Array.findIdx?_eq_none_iff.mp (Option.map_eq_none_iff.mp absent)
  cases number with
  | zero => cases isName
  | succ index => simpa using nowhere name (Array.mem_of_getElem? isName)

theorem name?_of_mem_toList {entry : Nat × String} (mem : entry ∈ vocabulary.toList) :
    vocabulary.name? entry.1 = some entry.2 := by
  obtain ⟨⟨name, index⟩, isEntry, rfl⟩ := List.mem_map.mp mem
  simpa [name?] using List.mem_zipIdx_iff_getElem?.mp isEntry

/-- Different numbers have different names, and names are words. -/
structure IsWritten (vocabulary : Vocabulary) : Prop where
  injective : ∀ {first second name}, vocabulary.name? first = some name →
    vocabulary.name? second = some name → first = second
  word : ∀ {number name}, vocabulary.name? number = some name → Text.IsWord name.toList

theorem isWritten_empty : empty.IsWritten := ⟨by simp, by simp⟩

/-- Every number keeps its name. -/
def ExtendedBy (vocabulary larger : Vocabulary) : Prop :=
  ∀ {number name}, vocabulary.name? number = some name → larger.name? number = some name

/-- A number and its name have the same truth value. -/
def Agree (vocabulary : Vocabulary) (truth : Nat → Prop) (world : String → Prop) : Prop :=
  ∀ {number name}, vocabulary.name? number = some name → (truth number ↔ world name)

theorem ExtendedBy.agree (extended : vocabulary.ExtendedBy larger) {truth : Nat → Prop}
    {world : String → Prop} (agree : larger.Agree truth world) : vocabulary.Agree truth world :=
  fun isName => agree (extended isName)

theorem ExtendedBy.isSome (extended : vocabulary.ExtendedBy larger)
    (isDeclared : (vocabulary.name? number).isSome) : (larger.name? number).isSome := by
  obtain ⟨name, isName⟩ := Option.isSome_iff_exists.mp isDeclared
  exact Option.isSome_of_mem (extended isName)

/-- Every world gives truth values to the numbers. -/
theorem exists_agree_of_world (vocabulary : Vocabulary) (world : String → Prop) :
    ∃ truth, vocabulary.Agree truth world := by
  refine ⟨fun number => ∃ name, vocabulary.name? number = some name ∧ world name, ?_⟩
  intro number name isName
  simp [isName]

/-- Truth values of the numbers make a world, because a name has one number. -/
theorem IsWritten.exists_agree (written : vocabulary.IsWritten) (truth : Nat → Prop) :
    ∃ world, vocabulary.Agree truth world := by
  refine ⟨fun name => ∃ number, vocabulary.name? number = some name ∧ truth number, ?_⟩
  intro number name isName
  constructor
  · intro holds
    exact ⟨number, isName, holds⟩
  · rintro ⟨other, isOther, holds⟩
    rwa [written.injective isName isOther]

/-- The number of a name is its number in the vocabulary after it. -/
theorem intern_spec (written : vocabulary.IsWritten) (isWord : Text.IsWord name.toList) :
    (vocabulary.intern name).2.IsWritten ∧ vocabulary.ExtendedBy (vocabulary.intern name).2 ∧
      (vocabulary.intern name).2.name? (vocabulary.intern name).1 = some name := by
  unfold intern
  split
  · rename_i found
    exact ⟨written, id, name?_of_number? found⟩
  · rename_i absent
    have notYet {number} : vocabulary.name? number ≠ some name := name?_ne_of_number? absent
    refine ⟨⟨?_, ?_⟩, ?_, ?_⟩
    · intro first second other isFirst isSecond
      rw [name?_push] at isFirst isSecond
      split at isFirst <;> split at isSecond <;> grind [IsWritten]
    · intro number other isName
      rw [name?_push] at isName
      split at isName
      · cases isName
        exact isWord
      · exact written.word isName
    · intro number other isName
      have inside := (isSome_name?.mp (Option.isSome_of_mem isName)).2
      rw [name?_push, if_neg (by omega), isName]
    · rw [name?_push, if_pos rfl]

/-- A formula over the numbers of a vocabulary says what a proposition says. -/
structure Numbers (vocabulary : Vocabulary) (formula : Proposition)
    (numbered : Formula Empty Nat) : Prop where
  isQuantifierFree : numbered.isQuantifierFree = true
  declared : numbered.EveryAtom (fun _ number => (vocabulary.name? number).isSome) []
  holds_iff : ∀ {truth world}, vocabulary.Agree truth world →
    (Formula.Holds (fun (_ : Empty → Unit) number => truth number) (fun _ => ()) numbered ↔
      formula.Holds world)

theorem Numbers.extend {formula : Proposition} {numbered : Formula Empty Nat}
    (numbers : vocabulary.Numbers formula numbered) (extended : vocabulary.ExtendedBy larger) :
    larger.Numbers formula numbered := by
  exact ⟨numbers.isQuantifierFree, numbers.declared.imp fun _ _ => extended.isSome,
    fun agree => numbers.holds_iff (extended.agree agree)⟩

/-- The names of a proposition are numbered from left to right, so what has been
numbered on the left is read in the vocabulary after the right. -/
theorem internFormula_spec {formula : Proposition} (written : vocabulary.IsWritten)
    (formulaWritten : formula.IsWritten) :
    (internFormula formula vocabulary).2.IsWritten ∧
      vocabulary.ExtendedBy (internFormula formula vocabulary).2 ∧
      (internFormula formula vocabulary).2.Numbers formula
        (internFormula formula vocabulary).1 := by
  induction formula generalizing vocabulary with
  | truth value => exact ⟨written, id, rfl, trivial, fun _ => Iff.rfl⟩
  | atom name =>
      obtain ⟨afterWritten, extended, isName⟩ := intern_spec written formulaWritten
      exact ⟨afterWritten, extended, rfl, Option.isSome_of_mem isName, fun agree => agree isName⟩
  | not body ih =>
      obtain ⟨afterWritten, extended, numbers⟩ := ih written formulaWritten
      exact ⟨afterWritten, extended, numbers.isQuantifierFree, numbers.declared,
        fun agree => not_congr (numbers.holds_iff agree)⟩
  | binary connective left right leftIh rightIh =>
      obtain ⟨middleWritten, leftExtended, leftNumbers⟩ := leftIh written formulaWritten.1
      obtain ⟨afterWritten, rightExtended, rightNumbers⟩ := rightIh middleWritten formulaWritten.2
      have leftNumbers := leftNumbers.extend rightExtended
      refine ⟨afterWritten, fun isName => rightExtended (leftExtended isName),
        Bool.and_eq_true_iff.mpr ⟨leftNumbers.isQuantifierFree, rightNumbers.isQuantifierFree⟩,
        ⟨leftNumbers.declared, rightNumbers.declared⟩, fun agree => ?_⟩
      exact iff_of_eq (congrArg₂ connective.Holds (propext (leftNumbers.holds_iff agree))
        (propext (rightNumbers.holds_iff agree)))
  | quantified quantifier binder body => cases binder

/-- Clauses over the numbers of a vocabulary that are true exactly in the worlds
with a property. -/
structure Describes (vocabulary : Vocabulary) (clauses : ClauseSet Nat)
    (property : (String → Prop) → Prop) : Prop where
  declared : ∀ clause ∈ clauses, ∀ literal ∈ clause, (vocabulary.name? literal.atom).isSome
  holds_iff : ∀ {truth world}, vocabulary.Agree truth world →
    (ClauseSet.Holds truth clauses ↔ property world)

namespace Describes

variable {clauses others : ClauseSet Nat} {property other : (String → Prop) → Prop}

theorem extend (describes : vocabulary.Describes clauses property)
    (extended : vocabulary.ExtendedBy larger) : larger.Describes clauses property := by
  refine ⟨fun clause mem literal literalMem => ?_,
    fun agree => describes.holds_iff (extended.agree agree)⟩
  exact extended.isSome (describes.declared clause mem literal literalMem)

theorem union (describes : vocabulary.Describes clauses property)
    (describesOthers : vocabulary.Describes others other) :
    vocabulary.Describes (Sorted.union clauses others)
      fun world => property world ∧ other world := by
  refine ⟨fun clause mem => ?_, fun agree => ?_⟩
  · rcases Sorted.mem_union.mp mem with mem | mem
    · exact describes.declared clause mem
    · exact describesOthers.declared clause mem
  · rw [ClauseSet.holds_union, describes.holds_iff agree, describesOthers.holds_iff agree]

/-- Clauses have no model exactly when no world has the property. -/
theorem unsatisfiable_iff (describes : vocabulary.Describes clauses property)
    (written : vocabulary.IsWritten) :
    (∀ truth, ¬ClauseSet.Holds truth clauses) ↔ ∀ world, ¬property world := by
  constructor
  · intro unsatisfiable world holds
    obtain ⟨truth, agree⟩ := vocabulary.exists_agree_of_world world
    exact unsatisfiable truth ((describes.holds_iff agree).mpr holds)
  · intro never truth holds
    obtain ⟨world, agree⟩ := written.exists_agree truth
    exact never world ((describes.holds_iff agree).mp holds)

end Describes

/-- The clauses of a numbered formula describe the proposition, or its negation
with `invert`. -/
theorem Numbers.describes {formula : Proposition} {numbered : Formula Empty Nat}
    (numbers : vocabulary.Numbers formula numbered) (invert : Bool) :
    ∃ clauses, numbered.clauses invert = .ok clauses ∧
      vocabulary.Describes clauses fun world => inverted invert (formula.Holds world) := by
  obtain ⟨clauses, done, holds_iff, atoms⟩ :=
    Formula.clauses_spec.{0} invert numbers.isQuantifierFree
  refine ⟨clauses, done, atoms numbers.declared, fun {truth world} agree => ?_⟩
  rw [← propext (numbers.holds_iff agree)]
  exact holds_iff (fun (_ : Empty → Unit) number => truth number) fun _ => ()

end Vocabulary

end Propositional

end Entailment
