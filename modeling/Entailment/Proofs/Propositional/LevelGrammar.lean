import Entailment.Proofs.Propositional.LevelBalance

/-!
# The grammar of propositional texts

The reader of propositional formulas takes a text character by character and keeps
a level of operands and connectives.  This is the grammar of the texts that it
accepts, with the formulas that it gives.

A level is a row of pieces with blanks between them.  A piece is an operand under
negations or a connective, and the operands of a level are joined by its connectives,
which are all of one kind and one fewer than the operands.  The reader counts the
pieces and does not look at their order, and it forgets an even number of negations
that have no operand.  So the grammar has a parameter for the rows of pieces that a
level admits: the reader admits all of them, and the infix texts are those in which
operands and connectives alternate.
-/

namespace Entailment.Propositional

/-! ## Pieces and how they are joined -/

/-- What stands in a level.  `nothing` is an even number of negations without an
operand. -/
inductive Piece where
  | operand (formula : Proposition)
  | connective (connective : Connective)
  | nothing

namespace Piece

/-- The operands of a row, from left to right. -/
@[simp]
def operands : List Piece → List Proposition
  | [] => []
  | .operand formula :: rest => formula :: operands rest
  | .connective _ :: rest => operands rest
  | .nothing :: rest => operands rest

/-- The connectives of a row, from left to right. -/
@[simp]
def connectives : List Piece → List Connective
  | [] => []
  | .operand _ :: rest => connectives rest
  | .connective kind :: rest => kind :: connectives rest
  | .nothing :: rest => connectives rest

@[simp]
theorem operands_append (first second : List Piece) :
    operands (first ++ second) = operands first ++ operands second := by
  induction first with
  | nil => rfl
  | cons piece rest ih => cases piece <;> simp [ih]

@[simp]
theorem connectives_append (first second : List Piece) :
    connectives (first ++ second) = connectives first ++ connectives second := by
  induction first with
  | nil => rfl
  | cons piece rest ih => cases piece <;> simp [ih]

/-- Operands with one connective between any two of them. -/
def IsInfix : List Piece → Prop
  | [.operand _] => True
  | .operand _ :: .connective _ :: rest => IsInfix rest
  | _ => False

end Piece

variable {formula : Proposition} {pieces : List Piece} {operands : List Proposition}

/-- A formula under some negations, two of which cancel out. -/
def Proposition.under (negations : Nat) (formula : Proposition) : Proposition :=
  if negations % 2 = 1 then .not formula else formula

/-- Operands that are joined to the right: `t₁ c (t₂ c (… c tₙ))`. -/
inductive RightFold (connective : Connective) : List Proposition → Proposition → Prop
  | single (operand : Proposition) : RightFold connective [operand] operand
  | cons {operands : List Proposition} {formula : Proposition} (operand : Proposition)
      (fold : RightFold connective operands formula) :
      RightFold connective (operand :: operands) (.binary connective operand formula)

/-- A row of operands as one formula: a right fold for `^` and `|`, the last operand
under the assumption of the others for `=>`, and two operands for `<=>`. -/
def Joined (operands : List Proposition) (formula : Proposition) : Connective → Prop
  | .and => RightFold .and operands formula
  | .or => RightFold .or operands formula
  | .implies => ∃ antecedents antecedent consequent, operands = antecedents ++ [consequent] ∧
      RightFold .and antecedents antecedent ∧ formula = .binary .implies antecedent consequent
  | .equiv => ∃ left right, operands = [left, right] ∧ formula = .binary .equiv left right

/-- The connectives of a level are of one kind. -/
def IsUniform (connectives : List Connective) : Prop :=
  ∃ connective, ∀ other ∈ connectives, other = connective

/-- A level with these pieces says this formula. -/
def Says (pieces : List Piece) (formula : Proposition) : Prop :=
  ∃ connective, (∀ other ∈ Piece.connectives pieces, other = connective) ∧
    (Piece.operands pieces).length = (Piece.connectives pieces).length + 1 ∧
    Joined (Piece.operands pieces) formula connective

/-! ## Rows -/

/-- The characters with a meaning of their own. -/
def specialChars : List Char := ['(', ')', 'T', 'F', '~', '<', '=', '^', '|']

/-- A character of a name. -/
def IsNameChar (c : Char) : Prop := Text.isBlank c = false ∧ c ∉ specialChars

theorem isBlank_of_mem_specialChars {c : Char} (mem : c ∈ specialChars) :
    Text.isBlank c = false := by
  have visible : specialChars.all (fun c => !Text.isBlank c) = true := by decide
  simpa using List.all_eq_true.mp visible c mem

/-- What may stand behind a name: a blank, a connective or the end of the level. -/
def EndsName (rest : List Char) : Prop :=
  ∀ c ∈ rest.head?, Text.isBlank c = true ∨ c ∈ [')', '<', '=', '^', '|']

/-- The pieces of a level as they are written.  `admits` says which rows of pieces
may stand between parentheses. -/
inductive Row (admits : List Piece → Prop) : List Char → List Piece → Prop
  | nil : Row admits [] []
  | blank {c : Char} {rest : List Char} {pieces : List Piece} (isBlank : Text.isBlank c = true)
      (row : Row admits rest pieces) : Row admits (c :: rest) pieces
  | connective {rest : List Char} {pieces : List Piece} (connective : Connective)
      (row : Row admits rest pieces) :
      Row admits (connective.symbol.toList ++ rest) (.connective connective :: pieces)
  | truth {rest : List Char} {pieces : List Piece} (negations : Nat) (value : Bool)
      (row : Row admits rest pieces) :
      Row admits (List.replicate negations '~' ++ ((truthSymbol value).toList ++ rest))
        (.operand (.under negations (.truth value)) :: pieces)
  | name {name rest : List Char} {pieces : List Piece} (negations : Nat) (nonempty : name ≠ [])
      (isName : ∀ c ∈ name, IsNameChar c) (ends : EndsName rest) (row : Row admits rest pieces) :
      Row admits (List.replicate negations '~' ++ (name ++ rest))
        (.operand (.under negations (.atom (String.ofList name))) :: pieces)
  | group {inner rest : List Char} {parts pieces : List Piece} {formula : Proposition}
      (negations : Nat) (inside : Row admits inner parts) (admitted : admits parts)
      (meaning : Says parts formula) (row : Row admits rest pieces) :
      Row admits (List.replicate negations '~' ++ '(' :: (inner ++ ')' :: rest))
        (.operand (.under negations formula) :: pieces)
  | cancelled {rest : List Char} {pieces : List Piece} {negations : Nat} (some : 0 < negations)
      (even : negations % 2 = 0) (ends : EndsName rest) (row : Row admits rest pieces) :
      Row admits (List.replicate negations '~' ++ rest) (.nothing :: pieces)

/-- A text is a level that says a formula. -/
def ReadsAs (admits : List Piece → Prop) (chars : List Char) (formula : Proposition) : Prop :=
  ∃ pieces, Row admits chars pieces ∧ admits pieces ∧ Says pieces formula

/-! ## The level of a row of pieces -/

/-- If the connectives of a row are of one kind, so are those of its beginning. -/
theorem IsUniform.of_append {before others : List Piece}
    (uniform : IsUniform (Piece.connectives (before ++ others))) :
    IsUniform (Piece.connectives before) := by
  obtain ⟨connective, same⟩ := uniform
  rw [Piece.connectives_append] at same
  exact ⟨connective, fun other mem => same other (List.mem_append_left _ mem)⟩

theorem Says.isUniform (meaning : Says pieces formula) : IsUniform (Piece.connectives pieces) := by
  obtain ⟨connective, same, -⟩ := meaning
  exact ⟨connective, same⟩

theorem rightFold_iff {connective : Connective} :
    RightFold connective operands formula ↔
      Formula.foldRight? connective operands = some formula := by
  induction operands generalizing formula with
  | nil =>
      simp only [Formula.foldRight?, reduceCtorEq, iff_false]
      intro fold
      cases fold
  | cons operand rest ih =>
      constructor
      · intro fold
        cases fold with
        | single => rfl
        | cons _ fold => simp only [Formula.foldRight?, ih.mp fold]
      · intro folded
        unfold Formula.foldRight? at folded
        split at folded
        · rename_i noFold
          cases folded
          cases rest with
          | nil => exact .single _
          | cons next others =>
              unfold Formula.foldRight? at noFold
              split at noFold <;> cases noFold
        · rename_i fold isFold
          cases folded
          exact .cons operand (ih.mpr isFold)

/-- Where there is an operand, the right fold is the conjunction or the disjunction
that the reader builds. -/
theorem rightFold_iff_getD {connective : Connective} (nonempty : operands ≠ [])
    (other : Proposition) :
    RightFold connective operands formula ↔
      (Formula.foldRight? connective operands).getD other = formula := by
  obtain ⟨operand, rest, rfl⟩ := List.exists_cons_of_ne_nil nonempty
  rw [rightFold_iff]
  unfold Formula.foldRight?
  split <;> simp

theorem joined_implies_iff (two : 2 ≤ operands.length) :
    Joined operands formula .implies ↔ Formula.implication operands = formula := by
  obtain ⟨antecedents, consequent, rfl⟩ : ∃ antecedents consequent,
      operands = antecedents ++ [consequent] :=
    ⟨_, _, (List.dropLast_concat_getLast (List.ne_nil_of_length_pos (by omega))).symm⟩
  have nonempty : antecedents ≠ [] := by
    rintro rfl
    simp at two
  obtain ⟨first, others, isCons⟩ := List.exists_cons_of_ne_nil nonempty
  have isImplication : Formula.implication (antecedents ++ [consequent]) =
      .binary .implies (.conjunction antecedents) consequent := by
    simp only [Formula.implication, List.getLast?_append, List.getLast?_singleton, Option.some_or,
      List.dropLast_concat, isCons]
  rw [isImplication]
  constructor
  · rintro ⟨_, antecedent, _, same, fold, rfl⟩
    obtain ⟨rfl, isLast⟩ := List.append_inj' same rfl
    cases isLast
    rw [Formula.conjunction, (rightFold_iff_getD nonempty _).mp fold]
  · rintro rfl
    exact ⟨antecedents, _, consequent, rfl, (rightFold_iff_getD nonempty _).mpr rfl, rfl⟩

/-- Without connectives, a level says its only operand. -/
theorem says_iff_of_nil (known : Piece.connectives pieces = []) :
    Says pieces formula ↔ Piece.operands pieces = [formula] := by
  constructor
  · rintro ⟨connective, -, count, joined⟩
    rw [known] at count
    obtain ⟨operand, isOperand⟩ := List.length_eq_one_iff.mp count
    rw [isOperand] at joined ⊢
    cases connective with
    | and | or =>
        rcases joined with _ | ⟨_, fold⟩
        · rfl
        · cases fold
    | implies =>
        obtain ⟨antecedents, _, consequent, same, fold, -⟩ := joined
        obtain rfl : antecedents = [] := by simpa using congrArg List.length same
        cases fold
    | equiv =>
        obtain ⟨_, _, same, -⟩ := joined
        cases same
  · intro isOperand
    refine ⟨.and, by simp [known], by simp [known, isOperand], ?_⟩
    rw [isOperand]
    exact .single formula

/-- With connectives, a level says its operands joined by them. -/
theorem says_iff_of_cons {kind : Connective} {others : List Connective}
    (known : Piece.connectives pieces = kind :: others) (same : ∀ other ∈ others, other = kind) :
    Says pieces formula ↔ (Piece.operands pieces).length = others.length + 2 ∧
      Joined (Piece.operands pieces) formula kind := by
  constructor
  · rintro ⟨connective, all, count, joined⟩
    obtain rfl := all kind (by simp [known])
    rw [known] at count
    exact ⟨count, joined⟩
  · rintro ⟨count, joined⟩
    refine ⟨kind, ?_, by rw [known]; exact count, joined⟩
    rw [known]
    exact List.forall_mem_cons.mpr ⟨rfl, same⟩

namespace Level

/-- The level of which a row of pieces has been read. -/
def after (pieces : List Piece) : Level where
  connective := (Piece.connectives pieces).head?
  connectives := (Piece.connectives pieces).length
  operands := (Piece.operands pieces).reverse
  negated := false
  name := none

/-- A level under some negations that have no operand yet. -/
def under (negations : Nat) (level : Level) : Level :=
  { level with negated := level.negated ^^ decide (negations % 2 = 1) }

variable {before : List Piece} {level : Level} {position : Nat}

theorem under_even {negations : Nat} (even : negations % 2 = 0) :
    level.under negations = level := by
  simp [under, even]

theorem under_under (first second : Nat) :
    (level.under first).under second = level.under (first + second) := by
  have parity : (decide (first % 2 = 1) ^^ decide (second % 2 = 1)) =
      decide ((first + second) % 2 = 1) := by
    rcases Nat.mod_two_eq_zero_or_one first with isFirst | isFirst <;>
      rcases Nat.mod_two_eq_zero_or_one second with isSecond | isSecond <;>
      simp [isFirst, isSecond, Nat.add_mod]
  simp only [under, Bool.xor_assoc, parity]

theorem push_under_after (negations : Nat) (operand : Proposition) :
    ((after before).under negations).push operand =
      after (before ++ [.operand (.under negations operand)]) := by
  simp [push, under, after, Proposition.under]

theorem after_nothing : after (before ++ [.nothing]) = after before := by
  simp [after]

theorem endName_after : (after before).endName position = .ok (after before) := rfl

/-- A connective is read if it is of the kind of those before it. -/
theorem addConnective_after_eq_ok_iff {connective : Connective}
    (uniform : IsUniform (Piece.connectives before)) :
    (after before).addConnective connective position = .ok level ↔
      IsUniform (Piece.connectives (before ++ [.connective connective])) ∧
        after (before ++ [.connective connective]) = level := by
  simp only [addConnective, endName_after, bind, Except.bind]
  cases known : Piece.connectives before with
  | nil =>
      have isUniform : IsUniform (Piece.connectives (before ++ [.connective connective])) :=
        ⟨connective, by simp [known]⟩
      rw [and_iff_right isUniform]
      simp [after, known, pure, Except.pure]
  | cons kind others =>
      obtain ⟨common, same⟩ := known ▸ uniform
      obtain rfl := same kind (List.mem_cons_self ..)
      by_cases isKind : kind = connective
      · have isUniform : IsUniform (Piece.connectives (before ++ [.connective connective])) := by
          refine ⟨kind, fun other mem => ?_⟩
          rw [Piece.connectives_append, known] at mem
          rcases List.mem_append.mp mem with mem | mem
          · exact same other mem
          · exact (List.mem_singleton.mp mem).trans isKind.symm
        rw [and_iff_right isUniform]
        simp [after, known, isKind, pure, Except.pure]
      · have mixed : ¬IsUniform (Piece.connectives (before ++ [.connective connective])) := by
          rintro ⟨common, same⟩
          have first := same kind (by simp [known])
          have last := same connective (by simp)
          exact isKind (first.trans last.symm)
        simp only [mixed, false_and, iff_false]
        simp [after, known, isKind, throw, throwThe, MonadExceptOf.throw]

/-- The pieces of a level that ends well say its formula. -/
theorem finish_after_eq_ok_iff (uniform : IsUniform (Piece.connectives before)) :
    (after before).finish position = .ok formula ↔ Says before formula := by
  have reversed : (after before).operands.reverse = Piece.operands before :=
    List.reverse_reverse _
  simp only [finish, endName_after, bind, Except.bind, reversed]
  cases known : Piece.connectives before with
  | nil =>
      rw [says_iff_of_nil known]
      simp only [after, known, List.head?_nil, List.length_nil]
      rcases Piece.operands before with _ | ⟨operand, _ | ⟨second, others⟩⟩
      · simp [throw, throwThe, MonadExceptOf.throw]
      · simp [pure, Except.pure]
      · simp [throw, throwThe, MonadExceptOf.throw]
  | cons kind others =>
      obtain ⟨common, same⟩ := known ▸ uniform
      obtain ⟨rfl, same⟩ := List.forall_mem_cons.mp same
      rw [says_iff_of_cons known same]
      simp only [after, known, List.head?_cons, List.length_cons]
      by_cases count : (Piece.operands before).length = others.length + 2
      · have two : 2 ≤ (Piece.operands before).length := by omega
        have nonempty : Piece.operands before ≠ [] := List.ne_nil_of_length_pos (by omega)
        rw [if_neg (by simpa using count), and_iff_right count]
        cases kind with
        | and =>
            rw [Joined, rightFold_iff_getD nonempty (.truth true)]
            simp [pure, Except.pure, Formula.conjunction]
        | or =>
            rw [Joined, rightFold_iff_getD nonempty (.truth false)]
            simp [pure, Except.pure, Formula.disjunction]
        | implies =>
            rw [joined_implies_iff two]
            simp [pure, Except.pure]
        | equiv =>
            simp only [Joined]
            rcases Piece.operands before with _ | ⟨left, _ | ⟨right, _ | ⟨third, others⟩⟩⟩
            · simp [throw, throwThe, MonadExceptOf.throw]
            · simp [throw, throwThe, MonadExceptOf.throw]
            · simp [pure, Except.pure, and_assoc, eq_comm]
            · simp [throw, throwThe, MonadExceptOf.throw]
      · rw [if_pos (by simpa using count)]
        simp [count, throw, throwThe, MonadExceptOf.throw]

end Level

end Entailment.Propositional
