import Entailment.Proofs.Propositional.Numbering

/-!
# Reading one level

The reader of propositional formulas keeps a level of operands and connectives.
The balance of a level is the number of its operands less the number of its
connectives, where a name that is being read counts as an operand.  A level ends
well only if its balance is one, and then its operands have one connective between
any two of them.

`HoldsAll` says what such a row of operands means: all of them for `^`, one of them
for `|`, the last under the assumption of the others for `=>`.
-/

namespace Entailment

universe u

/-- The truth of a row of operands, the last one first, with one connective between
any two of them.  Nothing is asked of an equivalence of other than two. -/
def Connective.HoldsAll {α : Type} (holds : α → Prop) : Connective → List α → Prop
  | .and, operands => ∀ operand ∈ operands, holds operand
  | .or, operands => ∃ operand ∈ operands, holds operand
  | .implies, consequent :: antecedents =>
      (∀ operand ∈ antecedents, holds operand) → holds consequent
  | .implies, [] => True
  | .equiv, [right, left] => holds left ↔ holds right
  | .equiv, _ => True

namespace Formula

variable {β α : Type} {D : Type u} [DecidableEq β] (meaning : (β → D) → α → Prop) (ρ : β → D)

/-- The truth of a right fold with `^`. -/
theorem holds_conjunction (operands : List (Formula β α)) :
    (conjunction operands).Holds meaning ρ ↔ ∀ operand ∈ operands, operand.Holds meaning ρ := by
  induction operands with
  | nil => simp [conjunction, foldRight?, Holds]
  | cons operand rest ih =>
      rw [List.forall_mem_cons, ← ih]
      cases folded : foldRight? .and rest with
      | none => simp [conjunction, foldRight?, folded, Holds]
      | some others => simp [conjunction, foldRight?, folded, Holds, Connective.Holds]

/-- The truth of a right fold with `|`. -/
theorem holds_disjunction (operands : List (Formula β α)) :
    (disjunction operands).Holds meaning ρ ↔ ∃ operand ∈ operands, operand.Holds meaning ρ := by
  induction operands with
  | nil => simp [disjunction, foldRight?, Holds]
  | cons operand rest ih =>
      simp only [List.mem_cons, exists_eq_or_imp, ← ih]
      cases folded : foldRight? .or rest with
      | none => simp [disjunction, foldRight?, folded, Holds]
      | some others => simp [disjunction, foldRight?, folded, Holds, Connective.Holds]

/-- The truth of a chain of implications. -/
theorem holds_implication (antecedents : List (Formula β α)) (consequent : Formula β α) :
    (implication (antecedents ++ [consequent])).Holds meaning ρ ↔
      ((∀ operand ∈ antecedents, operand.Holds meaning ρ) → consequent.Holds meaning ρ) := by
  simp only [implication, List.getLast?_append, List.getLast?_singleton, Option.some_or,
    List.dropLast_concat]
  cases antecedents with
  | nil => simp
  | cons first rest =>
      rw [← holds_conjunction meaning ρ (first :: rest)]
      rfl

end Formula

namespace Propositional

namespace Level

variable {level rested after : Level} {position : Nat}

/-- The level with the name that is being read as its last operand. -/
def settle (level : Level) : Level :=
  match level.name with
  | some name => { level with name := none }.push (.atom (String.ofList name.reverse))
  | none => level

theorem settle_of_none (noName : level.name = none) : level.settle = level := by
  simp [settle, noName]

theorem settle_of_some {name : List Char} (isName : level.name = some name) :
    level.settle =
      { level with name := none }.push (.atom (String.ofList name.reverse)) := by
  simp [settle, isName]

@[simp]
theorem name_settle (level : Level) : level.settle.name = none := by
  cases isName : level.name with
  | none => rw [settle_of_none isName, isName]
  | some name => rw [settle_of_some isName, push]

@[simp]
theorem settle_settle (level : Level) : level.settle.settle = level.settle :=
  settle_of_none level.name_settle

@[simp]
theorem connective_settle (level : Level) : level.settle.connective = level.connective := by
  cases isName : level.name with
  | none => rw [settle_of_none isName]
  | some name => rw [settle_of_some isName, push]

@[simp]
theorem connectives_settle (level : Level) : level.settle.connectives = level.connectives := by
  cases isName : level.name with
  | none => rw [settle_of_none isName]
  | some name => rw [settle_of_some isName, push]

/-- Ending a name settles the level and leaves no negation without an operand. -/
theorem endName_eq_ok_iff :
    level.endName position = .ok after ↔ after = level.settle ∧ after.negated = false := by
  cases isName : level.name with
  | none =>
      rw [settle_of_none isName]
      cases isNegated : level.negated with
      | true =>
          simp only [endName, isName, isNegated, if_true, reduceCtorEq, false_iff]
          rintro ⟨rfl, notNegated⟩
          rw [isNegated] at notNegated
          cases notNegated
      | false =>
          simp only [endName, isName, isNegated, Bool.false_eq_true, if_false, Except.ok.injEq]
          constructor
          · rintro rfl
            exact ⟨rfl, isNegated⟩
          · rintro ⟨rfl, -⟩
            rfl
  | some name =>
      rw [settle_of_some isName]
      simp only [endName, isName, Except.ok.injEq]
      constructor
      · rintro rfl
        exact ⟨rfl, rfl⟩
      · rintro ⟨rfl, -⟩
        rfl

/-- The number of operands less the number of connectives. -/
def balance (level : Level) : Int :=
  level.settle.operands.length - level.connectives

@[simp]
theorem balance_settle (level : Level) : level.settle.balance = level.balance := by
  simp [balance]

theorem balance_start : start.balance = 0 := rfl

theorem balance_push (noName : level.name = none) (operand : Proposition) :
    (level.push operand).balance = level.balance + 1 := by
  have pushed : (level.push operand).settle = level.push operand :=
    settle_of_none (by rw [push, noName])
  rw [balance, balance, pushed, settle_of_none noName]
  simp only [push, List.length_cons]
  omega

@[simp]
theorem balance_negated (level : Level) (negated : Bool) :
    balance { level with negated := negated } = level.balance := by
  obtain ⟨connective, connectives, operands, wasNegated, name⟩ := level
  cases name with
  | none => rfl
  | some name => rfl

/-- Going on with a name, or starting one. -/
theorem balance_name (level : Level) (name : List Char) :
    level.balance ≤ balance { level with name := some name } ∧
      (level.name = none → balance { level with name := some name } = level.balance + 1) := by
  have named : balance { level with name := some name } =
      (level.operands.length + 1 : Nat) - level.connectives := rfl
  rw [named]
  cases isName : level.name with
  | none =>
      rw [balance, settle_of_none isName]
      constructor
      · omega
      · intro _
        omega
  | some old =>
      rw [balance, settle_of_some isName]
      simp only [push, List.length_cons, reduceCtorEq, false_implies, and_true]
      omega

/-- What reading a connective does: the level is settled, and it has no other
connective. -/
theorem addConnective_eq_ok {connective : Connective}
    (added : level.addConnective connective position = .ok after) :
    after = { level.settle with
        connective := some connective, connectives := level.connectives + 1 } ∧
      level.settle.negated = false ∧
      (level.connective = none ∨ level.connective = some connective) := by
  unfold addConnective at added
  cases ended : level.endName position with
  | error error =>
      rw [ended] at added
      cases added
  | ok settled =>
      obtain ⟨rfl, notNegated⟩ := endName_eq_ok_iff.mp ended
      simp only [ended, bind, Except.bind, connective_settle, connectives_settle] at added
      cases known : level.connective with
      | none =>
          simp only [known] at added
          cases added
          exact ⟨rfl, notNegated, .inl rfl⟩
      | some other =>
          simp only [known] at added
          split at added
          · rename_i same
            cases added
            exact ⟨rfl, notNegated, .inr (congrArg some same)⟩
          · cases added

theorem balance_addConnective {connective : Connective}
    (added : level.addConnective connective position = .ok after) :
    after.name = none ∧ after.balance + 1 = level.balance := by
  obtain ⟨rfl, -⟩ := addConnective_eq_ok added
  have settled : settle { level.settle with
      connective := some connective, connectives := level.connectives + 1 } =
      { level.settle with
        connective := some connective, connectives := level.connectives + 1 } :=
    settle_of_none level.name_settle
  refine ⟨level.name_settle, ?_⟩
  rw [balance, settled, balance]
  simp only
  omega

/-- What a level that ends well says. -/
structure Ends (level : Level) (formula : Proposition) : Prop where
  balance : level.balance ≤ 1
  single : level.connective = none → level.settle.operands = [formula]
  pair : level.connective = some .equiv → level.settle.operands.length = 2
  holds : ∀ connective, level.connective = some connective → ∀ world,
    formula.Holds world ↔ connective.HoldsAll (Proposition.Holds world) level.settle.operands

/-- A level that ends well has one operand more than connectives, and says what its
row of operands says. -/
theorem ends_of_finish {formula : Proposition} (finished : level.finish position = .ok formula) :
    level.Ends formula := by
  unfold finish at finished
  cases ended : level.endName position with
  | error error =>
      rw [ended] at finished
      cases finished
  | ok settled =>
      obtain ⟨rfl, -⟩ := endName_eq_ok_iff.mp ended
      simp only [ended, bind, Except.bind, connective_settle, connectives_settle] at finished
      cases known : level.connective with
      | none =>
          simp only [known] at finished
          split at finished
          · rename_i operand isSingle
            cases finished
            have operands : level.settle.operands = [formula] := by
              simpa using congrArg List.reverse isSingle
            refine ⟨?_, fun _ => operands, by simp [known], by simp [known]⟩
            rw [Level.balance, operands, List.length_singleton]
            omega
          · cases finished
      | some connective =>
          simp only [known] at finished
          split at finished
          · cases finished
          rename_i count
          simp only [List.length_reverse, ne_eq, not_not] at count
          have balanced : level.balance ≤ 1 := by
            rw [Level.balance, count]
            omega
          cases connective with
          | and =>
              cases finished
              refine ⟨balanced, by simp [known], by simp [known], ?_⟩
              intro connective isIt world
              cases known.symm.trans isIt
              simp [Proposition.Holds, Formula.holds_conjunction, Connective.HoldsAll]
          | or =>
              cases finished
              refine ⟨balanced, by simp [known], by simp [known], ?_⟩
              intro connective isIt world
              cases known.symm.trans isIt
              simp [Proposition.Holds, Formula.holds_disjunction, Connective.HoldsAll]
          | implies =>
              cases finished
              refine ⟨balanced, by simp [known], by simp [known], ?_⟩
              intro connective isIt world
              cases known.symm.trans isIt
              cases operands : level.settle.operands with
              | nil => simp [operands] at count
              | cons consequent antecedents =>
                  rw [List.reverse_cons]
                  simp [Proposition.Holds, Formula.holds_implication, Connective.HoldsAll]
          | equiv =>
              simp only at finished
              split at finished
              · rename_i left right isPair
                cases finished
                have operands : level.settle.operands = [right, left] := by
                  simpa using congrArg List.reverse isPair
                refine ⟨balanced, by simp [known], fun _ => by rw [operands]; rfl, ?_⟩
                intro connective isIt world
                cases known.symm.trans isIt
                rw [operands]
                rfl
              · cases finished

/-- After blanks, a level is as it was or it is settled. -/
def Rests (level rested : Level) : Prop :=
  rested = level ∨ rested = level.settle ∧ rested.negated = false

theorem Rests.balance (rests : level.Rests rested) : rested.balance = level.balance := by
  rcases rests with rfl | ⟨rfl, -⟩
  · rfl
  · exact level.balance_settle

/-- Blanks change nothing where no name is being read. -/
theorem Rests.eq_of_none (rests : level.Rests rested) (noName : level.name = none) :
    rested = level := by
  rcases rests with rfl | ⟨rfl, -⟩
  · rfl
  · exact settle_of_none noName

theorem Rests.trans {middle : Level} (first : level.Rests middle) (second : middle.Rests rested) :
    level.Rests rested := by
  rcases second with rfl | ⟨rfl, notNegated⟩
  · exact first
  · rcases first with rfl | ⟨rfl, -⟩
    · exact .inr ⟨rfl, notNegated⟩
    · rw [settle_settle] at notNegated ⊢
      exact .inr ⟨rfl, notNegated⟩

/-- A level ends as well before blanks as after them. -/
theorem Rests.finish (rests : level.Rests rested) {formula : Proposition}
    (finished : rested.finish position = .ok formula) : level.finish position = .ok formula := by
  rcases rests with rfl | ⟨rfl, notNegated⟩
  · exact finished
  · have settled : level.endName position = .ok level.settle :=
      endName_eq_ok_iff.mpr ⟨rfl, notNegated⟩
    have again : level.settle.endName position = .ok level.settle :=
      endName_eq_ok_iff.mpr ⟨level.settle_settle.symm, notNegated⟩
    unfold Level.finish at finished ⊢
    rw [settled]
    rw [again] at finished
    exact finished

end Level

end Propositional

end Entailment
