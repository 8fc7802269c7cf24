import Entailment.Proofs.Propositional.LevelGrammar
import Mathlib.Data.List.Permutation

/-!
# The texts that the propositional reader accepts

The reader accepts a text exactly when the grammar of levels derives it, and gives
the formula of the grammar.  In one direction the reader is followed through a row of
pieces: behind it stands the level of these pieces.  In the other direction a level
is cut off from the front of a text that is accepted, piece by piece.

Infix texts are therefore accepted with the right formula.  Not every accepted text
is infix: connectives may stand before or behind their operands, and a pair of
negations may stand alone.
-/

namespace Entailment.Propositional

variable {formula goal : Proposition} {chars rest tail : List Char} {outer : List Level}
    {position : Nat} {level : Level} {admits : List Piece → Prop}

/-! ## Steps of the reader -/

section

variable {level : Level} {outer : List Level} {position : Nat} {rest : List Char}
variable {c : Char}

/-- What a step does with a character that has no meaning of its own. -/
theorem readLevels_ordinary (ordinary : c ∉ ['(', ')', '~', '<', '=', '^', '|']) :
    readLevels level outer position (c :: rest) =
      if c = 'T' ∨ c = 'F' then
        match level.name with
        | some _ => .error (.parse position (.truthConstantInLiteral c))
        | none => readLevels (level.push (.truth (c = 'T'))) outer (position + 1) rest
      else if Text.isBlank c then
        match level.endName position with
        | .error error => .error error
        | .ok level => readLevels level outer (position + 1) rest
      else
        readLevels { level with name := some (c :: level.name.getD []) } outer
          (position + 1) rest := by
  rw [readLevels.eq_def]
  split
  case h_12 =>
    rename_i same
    cases same
    rfl
  all_goals
    rename_i same
    cases same
    try exact absurd (by decide) ordinary

theorem readLevels_blank (blank : Text.isBlank c = true) :
    readLevels level outer position (c :: rest) =
      match level.endName position with
      | .error error => .error error
      | .ok level => readLevels level outer (position + 1) rest := by
  have notMem : c ∉ specialChars := fun mem => by
    simp [isBlank_of_mem_specialChars mem] at blank
  simp only [specialChars, List.mem_cons, List.not_mem_nil, or_false, not_or] at notMem
  rw [readLevels_ordinary (by simp [notMem]), if_neg (by simp [notMem]), if_pos blank]

theorem readLevels_nameChar (isName : IsNameChar c) :
    readLevels level outer position (c :: rest) =
      readLevels { level with name := some (c :: level.name.getD []) } outer
        (position + 1) rest := by
  obtain ⟨notBlank, notMem⟩ := isName
  simp only [specialChars, List.mem_cons, List.not_mem_nil, or_false, not_or] at notMem
  rw [readLevels_ordinary (by simp [notMem]), if_neg (by simp [notMem]),
    if_neg (by simp [notBlank])]

/-- The characters of a name are added to the name that is being read. -/
theorem readLevels_name {name : List Char} (nonempty : name ≠ [])
    (isName : ∀ c ∈ name, IsNameChar c) :
    readLevels level outer position (name ++ rest) =
      readLevels { level with name := some (name.reverse ++ level.name.getD []) } outer
        (position + name.length) rest := by
  induction name generalizing level position with
  | nil => exact absurd rfl nonempty
  | cons c name ih =>
      obtain ⟨isFirst, others⟩ := List.forall_mem_cons.mp isName
      rw [List.cons_append, readLevels_nameChar isFirst]
      cases name with
      | nil => rfl
      | cons second name =>
          rw [ih (List.cons_ne_nil _ _) others]
          simp [Nat.add_comm, Nat.add_left_comm]

theorem readLevels_truth (value : Bool) (noName : level.name = none) :
    readLevels level outer position ((truthSymbol value).toList ++ rest) =
      readLevels (level.push (.truth value)) outer (position + 1) rest := by
  have isLetter : ∃ c, (truthSymbol value).toList = [c] ∧ (c = 'T' ∨ c = 'F') ∧
      c ∉ ['(', ')', '~', '<', '=', '^', '|'] ∧ decide (c = 'T') = value := by
    cases value with
    | true => exact ⟨'T', rfl, by decide⟩
    | false => exact ⟨'F', rfl, by decide⟩
  obtain ⟨c, isText, isTruth, ordinary, isValue⟩ := isLetter
  rw [isText, List.singleton_append, readLevels_ordinary ordinary, if_pos isTruth, noName, isValue]

theorem readLevels_negations (negations : Nat) (noName : level.name = none) :
    readLevels level outer position (List.replicate negations '~' ++ rest) =
      readLevels (level.under negations) outer (position + negations) rest := by
  induction negations generalizing level position with
  | zero =>
      rw [Level.under_even rfl]
      rfl
  | succ negations ih =>
      have step (later : List Char) : readLevels level outer position ('~' :: later) =
          readLevels (level.under 1) outer (position + 1) later := by
        simp [readLevels, noName, Level.under]
      have stillNone : (level.under 1).name = none := noName
      rw [List.replicate_succ, List.cons_append, step, ih stillNone, Level.under_under,
        Nat.add_comm 1, Nat.add_assoc, Nat.add_comm 1]

theorem readLevels_connective (connective : Connective) :
    readLevels level outer position (connective.symbol.toList ++ rest) =
      match level.addConnective connective position with
      | .error error => .error error
      | .ok level => readLevels level outer (position + connective.symbol.toList.length) rest := by
  cases connective <;> rfl

theorem readLevels_open (noName : level.name = none) :
    readLevels level outer position ('(' :: rest) =
      readLevels .start (level :: outer) (position + 1) rest := by
  simp only [readLevels, noName]

end

/-! ## Where names end -/

/-- How a text goes on where no name goes on: it ends its level, goes on with a blank
or a connective, or cannot be read. -/
inductive Boundary : List Char → Prop
  | finish : Boundary []
  | close (rest : List Char) : Boundary (')' :: rest)
  | blank {c : Char} (isBlank : Text.isBlank c = true) (rest : List Char) : Boundary (c :: rest)
  | connective (connective : Connective) (rest : List Char) :
      Boundary (connective.symbol.toList ++ rest)
  | malformed {chars : List Char} (fails : ∀ level outer position formula,
      readLevels level outer position chars ≠ .ok formula) : Boundary chars

theorem readLevels_less_ne_ok (malformed : ∀ others, rest ≠ '=' :: '>' :: others) :
    readLevels level outer position ('<' :: rest) ≠ .ok formula := by
  rw [readLevels.eq_def]
  split <;> rename_i same <;> cases same
  case h_5 => exact absurd rfl (malformed _)
  all_goals simp_all

theorem readLevels_equal_ne_ok (malformed : ∀ others, rest ≠ '>' :: others) :
    readLevels level outer position ('=' :: rest) ≠ .ok formula := by
  rw [readLevels.eq_def]
  split <;> rename_i same <;> cases same
  case h_8 => exact absurd rfl (malformed _)
  all_goals simp_all

theorem EndsName.boundary (ends : EndsName chars) : Boundary chars := by
  cases chars with
  | nil => exact .finish
  | cons c rest =>
      rcases ends c rfl with blank | mem
      · exact .blank blank rest
      · simp only [List.mem_cons, List.not_mem_nil, or_false] at mem
        rcases mem with rfl | rfl | rfl | rfl | rfl
        · exact .close rest
        · by_cases isSymbol : ∃ others, rest = '=' :: '>' :: others
          · obtain ⟨others, rfl⟩ := isSymbol
            exact .connective .equiv others
          · exact .malformed fun _ _ _ _ => readLevels_less_ne_ok (not_exists.mp isSymbol)
        · by_cases isSymbol : ∃ others, rest = '>' :: others
          · obtain ⟨others, rfl⟩ := isSymbol
            exact .connective .implies others
          · exact .malformed fun _ _ _ _ => readLevels_equal_ne_ok (not_exists.mp isSymbol)
        · exact .connective .and rest
        · exact .connective .or rest

section

variable {level : Level} {outer : List Level} {position : Nat} {chars : List Char}
  {goal : Proposition}

/-- Where a name ends, the reader goes on as if it had been added to the operands, and
fails if there are negations without an operand. -/
theorem readLevels_eq_ok_iff_settle (ends : EndsName chars) :
    readLevels level outer position chars = .ok goal ↔
      level.settle.negated = false ∧ readLevels level.settle outer position chars = .ok goal := by
  cases ended : level.endName position with
  | error error =>
      have isNegated : level.settle.negated ≠ false := fun notNegated => by
        cases ended.symm.trans (Level.endName_eq_ok_iff.mpr ⟨rfl, notNegated⟩)
      refine iff_of_false ?_ fun read => isNegated read.1
      cases ends.boundary with
      | finish => cases outer <;> simp [readLevels, Level.finish, ended, bind, Except.bind]
      | close rest => cases outer <;> simp [readLevels, Level.finish, ended, bind, Except.bind]
      | blank isBlank rest => simp [readLevels_blank isBlank, ended]
      | connective connective rest =>
          simp [readLevels_connective, Level.addConnective, ended, bind, Except.bind]
      | malformed fails => exact fails _ _ _ _
  | ok settled =>
      obtain ⟨rfl, notNegated⟩ := Level.endName_eq_ok_iff.mp ended
      have again : level.settle.endName position = .ok level.settle :=
        Level.endName_eq_ok_iff.mpr ⟨level.settle_settle.symm, notNegated⟩
      rw [and_iff_right notNegated]
      cases ends.boundary with
      | finish => cases outer <;> simp only [readLevels, Level.finish, ended, again]
      | close rest => cases outer <;> simp only [readLevels, Level.finish, ended, again]
      | blank isBlank rest => rw [readLevels_blank isBlank, readLevels_blank isBlank, ended, again]
      | connective connective rest =>
          simp only [readLevels_connective, Level.addConnective, ended, again]
      | malformed fails => exact iff_of_false (fails _ _ _ _) (fails _ _ _ _)

end

/-! ## Reading one piece -/

section

variable {before : List Piece} {outer : List Level} {position : Nat} {rest : List Char}
  {goal : Proposition}

theorem readLevels_after_blank {c : Char} (isBlank : Text.isBlank c = true) :
    readLevels (.after before) outer position (c :: rest) =
      readLevels (.after before) outer (position + 1) rest := by
  rw [readLevels_blank isBlank, Level.endName_after]

theorem readLevels_after_connective (uniform : IsUniform (Piece.connectives before))
    (connective : Connective) :
    readLevels (.after before) outer position (connective.symbol.toList ++ rest) = .ok goal ↔
      IsUniform (Piece.connectives (before ++ [.connective connective])) ∧
        readLevels (.after (before ++ [.connective connective])) outer
          (position + connective.symbol.toList.length) rest = .ok goal := by
  rw [readLevels_connective]
  cases added : (Level.after before).addConnective connective position with
  | error error =>
      refine iff_of_false (by simp) ?_
      rintro ⟨isUniform, -⟩
      cases added.symm.trans ((Level.addConnective_after_eq_ok_iff uniform).mpr ⟨isUniform, rfl⟩)
  | ok level =>
      obtain ⟨isUniform, rfl⟩ := (Level.addConnective_after_eq_ok_iff uniform).mp added
      exact (and_iff_right isUniform).symm

theorem readLevels_after_truth (negations : Nat) (value : Bool) :
    readLevels (.after before) outer position
        (List.replicate negations '~' ++ ((truthSymbol value).toList ++ rest)) =
      readLevels (.after (before ++ [.operand (.under negations (.truth value))])) outer
        (position + negations + 1) rest := by
  rw [readLevels_negations _ rfl, readLevels_truth _ rfl, Level.push_under_after]

theorem readLevels_after_name {name : List Char} (negations : Nat) (nonempty : name ≠ [])
    (isName : ∀ c ∈ name, IsNameChar c) (ends : EndsName rest) :
    readLevels (.after before) outer position
        (List.replicate negations '~' ++ (name ++ rest)) = .ok goal ↔
      readLevels
        (.after (before ++ [.operand (.under negations (.atom (String.ofList name)))])) outer
        (position + negations + name.length) rest = .ok goal := by
  have settled : Level.settle { (Level.after before).under negations with
        name := some (name.reverse ++ []) } =
      .after (before ++ [.operand (.under negations (.atom (String.ofList name)))]) := by
    rw [Level.settle_of_some rfl, ← Level.push_under_after, List.append_nil, List.reverse_reverse]
    rfl
  rw [readLevels_negations _ rfl, readLevels_name nonempty isName,
    readLevels_eq_ok_iff_settle ends]
  exact settled ▸ and_iff_right rfl

theorem readLevels_after_open (negations : Nat) :
    readLevels (.after before) outer position (List.replicate negations '~' ++ '(' :: rest) =
      readLevels (.after []) ((Level.after before).under negations :: outer)
        (position + negations + 1) rest := by
  rw [readLevels_negations _ rfl, readLevels_open rfl]
  rfl

theorem readLevels_after_close {parent : Level} (meaning : Says before formula) :
    readLevels (.after before) (parent :: outer) position (')' :: rest) =
      readLevels (parent.push formula) outer (position + 1) rest := by
  simp only [readLevels, (Level.finish_after_eq_ok_iff meaning.isUniform).mpr meaning]

/-- A level that is closed has a formula. -/
theorem exists_says_of_close (uniform : IsUniform (Piece.connectives before))
    (read : readLevels (.after before) outer position (')' :: rest) = .ok goal) :
    ∃ parent around formula, outer = parent :: around ∧ Says before formula ∧
      readLevels (parent.push formula) around (position + 1) rest = .ok goal := by
  cases outer with
  | nil => simp [readLevels] at read
  | cons parent around =>
      simp only [readLevels] at read
      split at read
      · cases read
      · rename_i formula finished
        exact ⟨parent, around, formula, rfl,
          (Level.finish_after_eq_ok_iff uniform).mp finished, read⟩

theorem readLevels_after_end (uniform : IsUniform (Piece.connectives before)) :
    readLevels (.after before) outer position [] = .ok goal ↔ outer = [] ∧ Says before goal := by
  cases outer with
  | nil => simpa [readLevels] using Level.finish_after_eq_ok_iff uniform
  | cons parent outer => simp [readLevels]

theorem readLevels_after_cancelled {negations : Nat} (even : negations % 2 = 0) :
    readLevels (.after before) outer position (List.replicate negations '~' ++ rest) =
      readLevels (.after (before ++ [.nothing])) outer (position + negations) rest := by
  rw [readLevels_negations _ rfl, Level.under_even even, Level.after_nothing]

end

theorem EndsName.append (ends : EndsName rest) (tailEnds : EndsName tail) :
    EndsName (rest ++ tail) := by
  cases rest with
  | nil => exact tailEnds
  | cons c rest => exact ends

/-! ## Following the reader through a row -/

/-- A row of pieces is read whatever stands around it: behind it, the level is the
level of these pieces. -/
theorem Row.readLevels_eq_ok_iff {pieces : List Piece} (row : Row admits chars pieces)
    {before : List Piece} (uniform : IsUniform (Piece.connectives (before ++ pieces)))
    (ends : EndsName tail) {last : Nat} (isLast : position + chars.length = last) :
    readLevels (.after before) outer position (chars ++ tail) = .ok goal ↔
      readLevels (.after (before ++ pieces)) outer last tail = .ok goal := by
  induction row generalizing before tail outer position last goal with
  | nil =>
      obtain rfl := isLast
      simp
  | blank isBlank row ih =>
      rw [List.cons_append, readLevels_after_blank isBlank]
      exact ih uniform ends (by rw [← isLast, List.length_cons]; omega)
  | connective connective row ih =>
      rw [List.append_cons before] at uniform ⊢
      have withConnective : IsUniform (Piece.connectives (before ++ [.connective connective])) :=
        uniform.of_append
      rw [List.append_assoc, readLevels_after_connective withConnective.of_append,
        and_iff_right withConnective]
      exact ih uniform ends (by rw [← isLast, List.length_append]; omega)
  | truth negations value row ih =>
      rw [List.append_cons before] at uniform ⊢
      rw [List.append_assoc, List.append_assoc, readLevels_after_truth]
      have one : (truthSymbol value).toList.length = 1 := by cases value <;> rfl
      refine ih uniform ends ?_
      simp only [← isLast, List.length_append, List.length_replicate, one]
      omega
  | name negations nonempty isName nameEnds row ih =>
      rw [List.append_cons before] at uniform ⊢
      rw [List.append_assoc, List.append_assoc,
        readLevels_after_name negations nonempty isName (nameEnds.append ends)]
      refine ih uniform ends ?_
      simp only [← isLast, List.length_append, List.length_replicate]
      omega
  | @group inner rest parts pieces formula negations inside _ meaning row insideIh ih =>
      rw [List.append_cons before] at uniform ⊢
      have closed : EndsName (')' :: (rest ++ tail)) := by
        rintro c ⟨⟩
        exact .inr (by decide)
      have insideUniform : IsUniform (Piece.connectives ([] ++ parts)) := meaning.isUniform
      rw [List.append_assoc, List.cons_append, List.append_assoc, List.cons_append,
        readLevels_after_open, insideIh insideUniform closed rfl,
        List.nil_append, readLevels_after_close meaning, Level.push_under_after]
      refine ih uniform ends ?_
      simp only [← isLast, List.length_append, List.length_replicate, List.length_cons]
      omega
  | cancelled positive even nameEnds row ih =>
      rw [List.append_cons before] at uniform ⊢
      rw [List.append_assoc, readLevels_after_cancelled even]
      refine ih uniform ends ?_
      simp only [← isLast, List.length_append, List.length_replicate]
      omega

/-! ## Cutting off a level -/

theorem EndsName.of_append (ends : EndsName (rest ++ tail)) : EndsName rest := by
  cases rest with
  | nil => simp [EndsName]
  | cons c rest => exact ends

/-- How a text goes on behind a level with some formula: it ends, or the level is
closed and the reader goes on with the level around it. -/
inductive Closes (goal formula : Proposition) : List Level → List Char → Prop
  | all (isGoal : formula = goal) : Closes goal formula [] []
  | inner {parent : Level} {outer : List Level} {position : Nat} {rest : List Char}
      (read : readLevels (parent.push formula) outer position rest = .ok goal) :
      Closes goal formula (parent :: outer) (')' :: rest)

/-- A text begins with the rest of a level of which the pieces `before` have been
read. -/
def Splits (goal : Proposition) (before : List Piece) (outer : List Level) (chars : List Char) :
    Prop :=
  ∃ row pieces tail formula, chars = row ++ tail ∧ Row (fun _ => True) row pieces ∧
    Says (before ++ pieces) formula ∧ Closes goal formula outer tail

section

variable {goal : Proposition} {before : List Piece} {outer : List Level} {position : Nat}
  {rest : List Char}

theorem Splits.blank {c : Char} (isBlank : Text.isBlank c = true)
    (splits : Splits goal before outer rest) : Splits goal before outer (c :: rest) := by
  obtain ⟨row, pieces, tail, formula, rfl, isRow, meaning, closes⟩ := splits
  exact ⟨c :: row, pieces, tail, formula, rfl, .blank isBlank isRow, meaning, closes⟩

/-- A piece before the rest of a level. -/
theorem Splits.piece {piece : Piece} (text : List Char)
    (splits : Splits goal (before ++ [piece]) outer rest)
    (written : ∀ {row tail pieces}, rest = row ++ tail → Row (fun _ => True) row pieces →
      Row (fun _ => True) (text ++ row) (piece :: pieces)) :
    Splits goal before outer (text ++ rest) := by
  obtain ⟨row, pieces, tail, formula, isRest, isRow, meaning, closes⟩ := splits
  refine ⟨text ++ row, piece :: pieces, tail, formula, ?_, written isRest isRow, ?_, closes⟩
  · rw [isRest, List.append_assoc]
  · rwa [List.append_cons before]

end

/-- The longest run of characters of one kind in front of a text. -/
theorem exists_run (isOne : Char → Prop) (chars : List Char) :
    ∃ run rest, chars = run ++ rest ∧ (∀ c ∈ run, isOne c) ∧ ∀ c ∈ rest.head?, ¬isOne c := by
  induction chars with
  | nil => exact ⟨[], [], rfl, by simp⟩
  | cons c chars ih =>
      by_cases isFirst : isOne c
      · obtain ⟨run, rest, rfl, areOnes, next⟩ := ih
        exact ⟨c :: run, rest, rfl, List.forall_mem_cons.mpr ⟨isFirst, areOnes⟩, next⟩
      · exact ⟨[], c :: chars, rfl, by simp, by simpa using isFirst⟩

/-- How a text can go on: behind a name, or with an operand. -/
theorem char_cases (c : Char) (rest : List Char) :
    EndsName (c :: rest) ∨ c = '~' ∨ c = '(' ∨ (c = 'T' ∨ c = 'F') ∨ IsNameChar c := by
  by_cases mem : c ∈ specialChars
  · by_cases ends : c ∈ [')', '<', '=', '^', '|']
    · exact .inl (by rintro _ ⟨⟩; exact .inr ends)
    · simp only [specialChars, List.mem_cons, List.not_mem_nil, or_false] at mem ends
      grind
  · cases isBlank : Text.isBlank c with
    | true => exact .inl (by rintro _ ⟨⟩; exact .inl isBlank)
    | false => exact .inr (.inr (.inr (.inr ⟨isBlank, mem⟩)))

/-- A name goes on until something stands behind it that ends it. -/
theorem endsName_of_readLevels {name : List Char} (named : level.name = some name)
    (next : ∀ c ∈ chars.head?, ¬IsNameChar c)
    (read : readLevels level outer position chars = .ok goal) : EndsName chars := by
  cases chars with
  | nil => simp [EndsName]
  | cons c rest =>
      rcases char_cases c rest with ends | rfl | rfl | isTruth | isName
      · exact ends
      · simp [readLevels, named] at read
      · simp [readLevels, named] at read
      · rw [readLevels_ordinary (by rcases isTruth with rfl | rfl <;> decide), if_pos isTruth,
          named] at read
        cases read
      · exact absurd isName (next c rfl)

/-- Shorter texts than this are cut. -/
def CutsShorter (goal : Proposition) (size : Nat) : Prop :=
  ∀ {before : List Piece} {outer : List Level} {position : Nat} {chars : List Char},
    chars.length < size → IsUniform (Piece.connectives before) →
    readLevels (.after before) outer position chars = .ok goal → Splits goal before outer chars

section

variable {goal : Proposition} {before : List Piece} {outer : List Level} {position : Nat}
  {rest : List Char}

/-- A text that does not go on with an operand. -/
theorem CutsShorter.boundary (cuts : CutsShorter goal rest.length)
    (uniform : IsUniform (Piece.connectives before)) (ends : EndsName rest)
    (read : readLevels (.after before) outer position rest = .ok goal) :
    Splits goal before outer rest := by
  cases ends.boundary with
  | finish =>
      obtain ⟨rfl, meaning⟩ := (readLevels_after_end uniform).mp read
      exact ⟨[], [], [], goal, rfl, .nil, by rwa [List.append_nil], .all rfl⟩
  | close rest =>
      obtain ⟨parent, around, formula, rfl, meaning, read⟩ := exists_says_of_close uniform read
      exact ⟨[], [], _, formula, rfl, .nil, by rwa [List.append_nil], .inner read⟩
  | blank isBlank rest =>
      rw [readLevels_after_blank isBlank] at read
      exact (cuts (by simp) uniform read).blank isBlank
  | connective connective rest =>
      obtain ⟨isUniform, read⟩ := (readLevels_after_connective uniform connective).mp read
      have positive : 0 < connective.symbol.toList.length := by cases connective <;> decide
      have shorter : rest.length < (connective.symbol.toList ++ rest).length := by
        rw [List.length_append]
        omega
      exact (cuts shorter isUniform read).piece _ fun _ isRow => .connective connective isRow
  | malformed fails => exact absurd read (fails _ _ _ _)

/-- A text that goes on with negations that have no operand. -/
theorem CutsShorter.cancelled {negations : Nat} (positive : 0 < negations)
    (cuts : CutsShorter goal (List.replicate negations '~' ++ rest).length)
    (uniform : IsUniform (Piece.connectives before)) (ends : EndsName rest)
    (read : readLevels (.after before) outer position (List.replicate negations '~' ++ rest) =
      .ok goal) :
    Splits goal before outer (List.replicate negations '~' ++ rest) := by
  have even : negations % 2 = 0 := by
    have stopped := read
    rw [readLevels_negations _ rfl, readLevels_eq_ok_iff_settle ends] at stopped
    simpa [Level.settle, Level.under, Level.after] using stopped.1
  rw [readLevels_after_cancelled even] at read
  have isUniform : IsUniform (Piece.connectives (before ++ [.nothing])) := by
    simpa using uniform
  refine (cuts ?_ isUniform read).piece _ fun isRest isRow =>
    .cancelled positive even (EndsName.of_append (isRest ▸ ends)) isRow
  rw [List.length_append, List.length_replicate]
  omega

/-- A text that goes on with an operand under some negations. -/
theorem CutsShorter.operand {negations : Nat}
    (cuts : CutsShorter goal (List.replicate negations '~' ++ rest).length)
    (uniform : IsUniform (Piece.connectives before))
    (next : ∀ c ∈ rest.head?, c ≠ '~') (notEnds : ¬EndsName rest)
    (read : readLevels (.after before) outer position (List.replicate negations '~' ++ rest) =
      .ok goal) :
    Splits goal before outer (List.replicate negations '~' ++ rest) := by
  have withOperand (formula : Proposition) :
      IsUniform (Piece.connectives (before ++ [.operand formula])) := by
    simpa using uniform
  cases rest with
  | nil => exact absurd (by simp [EndsName]) notEnds
  | cons c others =>
      rcases char_cases c others with ends | rfl | rfl | isTruth | isName
      · exact absurd ends notEnds
      · exact absurd rfl (next '~' rfl)
      · rw [readLevels_after_open] at read
        obtain ⟨inner, parts, tail, formula, rfl, inside, meaning, closes⟩ :=
          cuts (by simp; omega) ⟨.and, by simp⟩ read
        cases closes with
        | inner goesOn =>
            rw [Level.push_under_after] at goesOn
            have splits := (cuts (by simp; omega) (withOperand _) goesOn).piece
              (List.replicate negations '~' ++ '(' :: (inner ++ [')'])) fun _ isRow => by
                simpa using Row.group negations inside trivial meaning isRow
            simpa using splits
      · obtain ⟨value, isLetter⟩ : ∃ value, [c] = (truthSymbol value).toList := by
          rcases isTruth with rfl | rfl
          · exact ⟨true, rfl⟩
          · exact ⟨false, rfl⟩
        rw [← List.singleton_append, isLetter] at read ⊢
        rw [readLevels_after_truth] at read
        rw [← List.append_assoc]
        refine (cuts (by simp; omega) (withOperand _) read).piece _ fun _ isRow => ?_
        rw [List.append_assoc]
        exact .truth negations value isRow
      · obtain ⟨name, rest, isText, areName, last⟩ := exists_run IsNameChar (c :: others)
        have nonempty : name ≠ [] := by
          rintro rfl
          rw [List.nil_append] at isText
          exact last c (by rw [← isText]; rfl) isName
        rw [isText] at read cuts ⊢
        have ends : EndsName rest := by
          have inName := read
          rw [readLevels_negations _ rfl, readLevels_name nonempty areName] at inName
          exact endsName_of_readLevels rfl last inName
        rw [readLevels_after_name negations nonempty areName ends] at read
        have shorter : rest.length < (List.replicate negations '~' ++ (name ++ rest)).length := by
          have positive := List.length_pos_of_ne_nil nonempty
          rw [List.length_append, List.length_append]
          omega
        rw [← List.append_assoc]
        refine (cuts shorter (withOperand _) read).piece _ fun isRest isRow => ?_
        rw [List.append_assoc]
        exact .name negations nonempty areName (EndsName.of_append (isRest ▸ ends)) isRow

end

/-- A text that is accepted behind the pieces `before` begins with the rest of their
level. -/
theorem splits_of_readLevels {before : List Piece} (uniform : IsUniform (Piece.connectives before))
    (read : readLevels (.after before) outer position chars = .ok goal) :
    Splits goal before outer chars := by
  -- Each piece leaves a shorter text.  The induction is not along the reader, which also
  -- stops inside names, inside negations and, with another level, inside parentheses.
  induction size : chars.length using Nat.strongRecOn generalizing before outer position chars with
  | ind _ ih =>
      have cuts : CutsShorter goal chars.length := fun shorter isUniform isRead =>
        ih _ (size ▸ shorter) isUniform isRead rfl
      obtain ⟨run, rest, rfl, areNegations, next⟩ := exists_run (· = '~') chars
      obtain ⟨negations, rfl⟩ : ∃ negations, run = List.replicate negations '~' :=
        ⟨run.length, List.eq_replicate_of_mem areNegations⟩
      by_cases ends : EndsName rest
      · rcases Nat.eq_zero_or_pos negations with rfl | positive
        · exact cuts.boundary uniform ends read
        · exact cuts.cancelled positive uniform ends read
      · exact cuts.operand uniform next ends read

/-! ## How infix texts begin -/

/-- A text begins with an operand: behind blanks and negations stands a parenthesis, a
truth constant or a name. -/
def StartsWithOperand (chars : List Char) : Prop :=
  ∃ c ∈ ((chars.dropWhile Text.isBlank).dropWhile (· = '~')).head?,
    c ∈ ['(', 'T', 'F'] ∨ IsNameChar c

theorem startsWithOperand_negations {c : Char} (negations : Nat)
    (starts : c ∈ ['(', 'T', 'F'] ∨ IsNameChar c) :
    StartsWithOperand (List.replicate negations '~' ++ c :: rest) := by
  have visible : Text.isBlank c = false := by
    rcases starts with mem | isName
    · refine isBlank_of_mem_specialChars ?_
      simp only [List.mem_cons, List.not_mem_nil, or_false] at mem
      rcases mem with rfl | rfl | rfl <;> simp [specialChars]
    · exact isName.1
  have notNegation : c ≠ '~' := by
    rintro rfl
    simp [IsNameChar, specialChars] at starts
  have kept : (List.replicate negations '~' ++ c :: rest).dropWhile Text.isBlank =
      List.replicate negations '~' ++ c :: rest := by
    cases negations with
    | zero => simp [visible]
    | succ negations =>
        rw [List.replicate_succ, List.cons_append, List.dropWhile_cons_of_neg (by decide)]
  have behind : (List.replicate negations '~' ++ c :: rest).dropWhile (· = '~') = c :: rest := by
    simp [notNegation]
  exact ⟨c, by rw [kept, behind]; rfl, starts⟩

theorem Row.startsWithOperand {others : List Piece}
    (row : Row admits chars (.operand formula :: others)) : StartsWithOperand chars := by
  generalize isFirst : Piece.operand formula :: others = pieces at row
  induction row with
  | nil => cases isFirst
  | blank isBlank row ih =>
      have starts := ih isFirst
      rwa [StartsWithOperand, List.dropWhile_cons_of_pos isBlank]
  | connective => cases isFirst
  | truth negations value row =>
      cases value with
      | true => exact startsWithOperand_negations negations (.inl (by decide))
      | false => exact startsWithOperand_negations negations (.inl (by decide))
  | name negations nonempty isName ends row =>
      obtain ⟨c, name, rfl⟩ := List.exists_cons_of_ne_nil nonempty
      exact startsWithOperand_negations negations (.inr (isName c (List.mem_cons_self ..)))
  | group negations => exact startsWithOperand_negations negations (.inl (by decide))
  | cancelled => cases isFirst

/-- Infix texts begin with an operand. -/
theorem ReadsAs.startsWithOperand (reads : ReadsAs Piece.IsInfix chars formula) :
    StartsWithOperand chars := by
  obtain ⟨pieces, row, isInfix, -⟩ := reads
  cases pieces with
  | nil => cases isInfix
  | cons piece rest =>
      cases piece with
      | operand formula => exact row.startsWithOperand
      | connective connective => cases isInfix
      | nothing => cases isInfix

/-! ## The accepted texts -/

/-- A text that the grammar derives is accepted, whichever rows of pieces its levels
admit. -/
theorem ReadsAs.parse {text : String} (reads : ReadsAs admits text.toList formula) :
    Proposition.parse text = .ok formula := by
  obtain ⟨pieces, row, -, meaning⟩ := reads
  have uniform : IsUniform (Piece.connectives ([] ++ pieces)) := meaning.isUniform
  have atEnd : EndsName [] := by simp [EndsName]
  have read : readLevels (.after []) [] 0 (text.toList ++ []) = .ok formula :=
    (row.readLevels_eq_ok_iff uniform atEnd rfl).mpr
      ((readLevels_after_end uniform).mpr ⟨rfl, meaning⟩)
  rwa [List.append_nil] at read

theorem readsAs_of_parse {text : String} (parsed : Proposition.parse text = .ok formula) :
    ReadsAs (fun _ => True) text.toList formula := by
  have uniform : IsUniform (Piece.connectives []) := ⟨.and, by simp⟩
  obtain ⟨row, pieces, tail, other, isText, isRow, meaning, closes⟩ :=
    splits_of_readLevels uniform parsed
  cases closes with
  | all isGoal =>
      obtain rfl := isGoal
      rw [List.append_nil] at isText
      exact ⟨pieces, isText ▸ isRow, trivial, meaning⟩

/-- A text is accepted with a formula exactly when it is a level that says it, where
the operands and connectives of a level may stand in any order and an even number of
negations may stand without an operand.  In particular every infix text is accepted
with its formula. -/
theorem parse_eq_ok_iff_readsAs (text : String) (formula : Proposition) :
    (Proposition.parse text = .ok formula ↔ ReadsAs (fun _ => True) text.toList formula) ∧
      (ReadsAs Piece.IsInfix text.toList formula → Proposition.parse text = .ok formula) :=
  ⟨⟨readsAs_of_parse, ReadsAs.parse⟩, ReadsAs.parse⟩

/-- A connective before its operands is accepted, and so are two negations with a
blank behind them.  Neither text is infix. -/
theorem parse_accepts_beyond_infix :
    Proposition.parse "^ a b" = .ok (.binary .and (.atom "a") (.atom "b")) ∧
      (∀ formula, ¬ReadsAs Piece.IsInfix "^ a b".toList formula) ∧
      Proposition.parse "~~ a" = .ok (.atom "a") ∧
      ∀ formula, ¬ReadsAs Piece.IsInfix "~~ a".toList formula := by
  refine ⟨by cbv, fun formula reads => ?_, by cbv, fun formula reads => ?_⟩
  · obtain ⟨c, isFirst, starts⟩ := reads.startsWithOperand
    obtain rfl : '^' = c := Option.some.inj isFirst
    simp [IsNameChar, specialChars] at starts
  · obtain ⟨c, isFirst, starts⟩ := reads.startsWithOperand
    obtain rfl : ' ' = c := Option.some.inj isFirst
    simp [IsNameChar, specialChars, Text.isBlank] at starts

end Entailment.Propositional
