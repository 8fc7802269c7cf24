import Entailment.Proofs.Propositional.AcceptedTexts

/-!
# Written propositional formulas are read back

A formula is written with parentheses around every binary formula and with one `~` for
every negation.  The reader keeps the parity of the negations in front of an operand and
forgets their number, so what it gives back is the formula with every chain of negations
cut down to one or to none.

Parentheses leave one connective to each level, so a formula that is written is infix
and the way in which longer levels are joined plays no part.
-/

namespace Entailment.Propositional

/-! ## Chains of negations -/

namespace Proposition

/-- A formula below a number of negations.  A chain of negations that ends here, and
every chain inside, is replaced by its length modulo two. -/
def cutChain (negations : Nat) : Proposition → Proposition
  | .truth value => under negations (.truth value)
  | .atom name => under negations (.atom name)
  | .not body => cutChain (negations + 1) body
  | .binary connective left right =>
      under negations (.binary connective (cutChain 0 left) (cutChain 0 right))

/-- The formula with every longest chain of negations replaced by its length modulo
two. -/
def cutNegations (formula : Proposition) : Proposition := cutChain 0 formula

theorem toList_render_not (body : Proposition) :
    (render (.not body)).toList = '~' :: (render body).toList := by
  simp [render, Formula.render]

theorem toList_render_binary (connective : Connective) (left right : Proposition) :
    (render (.binary connective left right)).toList =
      '(' :: ((render left).toList ++ ' ' :: (connective.symbol.toList ++
        ' ' :: (render right).toList) ++ [')']) := by
  simp [render, Formula.render]

end Proposition

/-! ## Names -/

instance : DecidablePred IsNameChar := fun c =>
  inferInstanceAs (Decidable (Text.isBlank c = false ∧ c ∉ specialChars))

/-- A name that is read as a name: it is not empty, and it has neither blanks nor
characters with a meaning of their own. -/
def IsReadableName (name : String) : Prop :=
  name ≠ "" ∧ ∀ c ∈ name.toList, IsNameChar c

instance : DecidablePred IsReadableName := fun name =>
  decidable_of_iff (name ≠ "" ∧ name.toList.all (fun c => decide (IsNameChar c)) = true)
    (by simp [IsReadableName])

/-! ## The row of a written formula -/

theorem endsName_nil : EndsName [] := by
  simp [EndsName]

theorem endsName_blank (rest : List Char) : EndsName (' ' :: rest) := by
  rintro c ⟨⟩
  exact .inl rfl

/-- Two operands with a connective between them say the binary formula. -/
theorem says_binary (connective : Connective) (left right : Proposition) :
    Says [.operand left, .connective connective, .operand right]
      (.binary connective left right) := by
  refine ⟨connective, by simp, by simp, ?_⟩
  cases connective with
  | and => exact .cons left (.single right)
  | or => exact .cons left (.single right)
  | implies => exact ⟨[left], left, right, rfl, .single left, rfl⟩
  | equiv => exact ⟨left, right, rfl, rfl⟩

/-- A written formula below some negations is one operand of a row, whatever stands
behind it. -/
theorem row_render {formula : Proposition} (readable : ∀ name ∈ formula.atoms, IsReadableName name)
    (negations : Nat) {rest : List Char} {pieces : List Piece} (ends : EndsName rest)
    (row : Row Piece.IsInfix rest pieces) :
    Row Piece.IsInfix (List.replicate negations '~' ++ (formula.render.toList ++ rest))
      (.operand (.cutChain negations formula) :: pieces) := by
  -- The negations in front are part of the statement, so a negation only adds one to them.
  induction formula generalizing negations rest pieces with
  | truth value => exact .truth negations value row
  | atom name =>
      obtain ⟨nonempty, isName⟩ := readable name (List.mem_singleton_self name)
      have written := Row.name negations (by simpa using nonempty) isName ends row
      rwa [String.ofList_toList] at written
  | not body ih =>
      have counted (text : List Char) : List.replicate negations '~' ++ ('~' :: text ++ rest) =
          List.replicate (negations + 1) '~' ++ (text ++ rest) := by
        simp [List.replicate_succ']
      rw [Proposition.toList_render_not, counted]
      exact ih readable (negations + 1) ends row
  | binary connective left right leftIh rightIh =>
      have readableLeft : ∀ name ∈ left.atoms, IsReadableName name :=
        fun name mem => readable name (List.mem_append_left _ mem)
      have readableRight : ∀ name ∈ right.atoms, IsReadableName name :=
        fun name mem => readable name (List.mem_append_right _ mem)
      have last := rightIh readableRight 0 endsName_nil .nil
      have between := Row.blank (c := ' ') rfl (.connective connective (.blank (c := ' ') rfl last))
      have inside := leftIh readableLeft 0 (endsName_blank _) between
      rw [Proposition.toList_render_binary]
      simpa [Proposition.cutChain] using
        Row.group negations inside trivial (says_binary connective _ _) row
  | quantified quantifier binder body => exact nomatch binder

/-- A formula whose names are readable is written and read back, with every chain of
negations replaced by its length modulo two. -/
theorem parse_render_eq_cutNegations {formula : Proposition}
    (readable : ∀ name ∈ formula.atoms, IsReadableName name) :
    Proposition.parse formula.render = .ok formula.cutNegations := by
  have row := row_render readable 0 endsName_nil .nil
  rw [List.replicate_zero, List.nil_append, List.append_nil] at row
  exact ReadsAs.parse ⟨_, row, trivial, (says_iff_of_nil rfl).mpr rfl⟩

/-- Names that look like symbols and numerals, and chains of three and of two negations. -/
theorem parse_render_eq_cutNegations_chains :
    let formula : Proposition :=
      .not (.not (.not (.binary .implies (.atom ">2") (.binary .implies (.not (.not (.atom "b-")))
        (.not (.truth true))))))
    (∀ name ∈ formula.atoms, IsReadableName name) ∧
      formula.render = "~~~(>2 => (~~b- => ~T))" ∧
      Proposition.parse "~~~(>2 => (~~b- => ~T))" =
        .ok (.not (.binary .implies (.atom ">2") (.binary .implies (.atom "b-")
          (.not (.truth true))))) := by
  intro formula
  have readable : ∀ name ∈ formula.atoms, IsReadableName name := by decide
  exact ⟨readable, rfl, parse_render_eq_cutNegations readable⟩

end Entailment.Propositional
