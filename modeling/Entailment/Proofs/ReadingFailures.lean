import Entailment.FirstOrder.Parser
import Entailment.Proofs.Propositional.Numbering

/-!
# Texts that are refused

Whatever the text is, reading it fails with a parse error or not at all.  This
holds of both languages, and of every reader that reading a formula goes through.
-/

namespace Entailment

/-- A computation that can only fail with an error that leaves everything as it
was. -/
def FailsRecoverably {α : Type} : Except Error α → Prop
  | .ok _ => True
  | .error error => error.isRecoverable = true

theorem FailsRecoverably.of_error {α : Type} {result : Except Error α} {error : Error}
    (fails : FailsRecoverably result) (failed : result = .error error) :
    error.isRecoverable = true := by
  rwa [failed] at fails

/-- The recoverable errors are the parse errors. -/
theorem Error.isRecoverable_iff {error : Error} :
    error.isRecoverable = true ↔ ∃ position cause, error = .parse position cause := by
  cases error <;> simp [Error.isRecoverable]

end Entailment

namespace Entailment.FirstOrder

/-! ## First-order formulas -/

theorem Lexeme.scan_failsRecoverably (position : Nat) (text : List Char) :
    FailsRecoverably (Lexeme.scan position text) := by
  fun_induction Lexeme.scan position text with
  | case1 => trivial
  | case2 position c rest isBlank ih => exact ih
  | case3 => rfl
  | case4 position c rest notBlank token left read shorter error failed ih =>
      exact ih.of_error failed
  | case5 => trivial

/-- The readers of terms and arguments, by induction on the depth. -/
theorem readTerms_failsRecoverably (stop depth : Nat) (lexemes : List Lexeme) :
    FailsRecoverably (readTerm stop depth lexemes) ∧
      FailsRecoverably (readArgs stop depth lexemes) ∧
      FailsRecoverably (readTerms stop depth lexemes) := by
  induction depth generalizing lexemes with
  | zero => exact ⟨rfl, rfl, rfl⟩
  | succ depth ih =>
      refine ⟨?_, ?_, ?_⟩
      · unfold readTerm
        split
        · rfl
        · trivial
        · rename_i name rest
          have args := (ih rest).2.1
          split
          · rename_i failed
            exact args.of_error failed
          · trivial
        · rfl
      · unfold readArgs
        split
        · exact (ih _).2.2
        · trivial
      · have first := (ih lexemes).1
        unfold readTerms
        split
        · rename_i failed
          exact first.of_error failed
        · trivial
        · rename_i rest _
          have others := (ih rest).2.2
          split
          · rename_i failed
            exact others.of_error failed
          · trivial
        · rfl
        · rfl

theorem readEquation_failsRecoverably (stop depth : Nat) (left : SurfaceTerm)
    (lexemes : List Lexeme) : FailsRecoverably (readEquation stop depth left lexemes) := by
  unfold readEquation
  split
  · rename_i rest
    have right := (readTerms_failsRecoverably stop depth rest).1
    split
    · rename_i failed
      exact right.of_error failed
    · trivial
  · rename_i rest
    have right := (readTerms_failsRecoverably stop depth rest).1
    split
    · rename_i failed
      exact right.of_error failed
    · trivial
  · rfl

theorem readAtom_failsRecoverably (stop depth : Nat) (name : String) (lexemes : List Lexeme) :
    FailsRecoverably (readAtom stop depth name lexemes) := by
  have args := (readTerms_failsRecoverably stop depth lexemes).2.1
  unfold readAtom
  split
  · rename_i failed
    exact args.of_error failed
  · split
    · exact readEquation_failsRecoverably ..
    · trivial

theorem isRecoverable_leftover (stop : Nat) (lexemes : List Lexeme) :
    (leftover stop lexemes).isRecoverable = true := by
  unfold leftover
  split <;> rfl

/-- The readers of formulas, by induction on the depth. -/
theorem readFormula_failsRecoverably (stop depth : Nat) (lexemes : List Lexeme) :
    FailsRecoverably (readFormula stop depth lexemes) ∧
      (∀ pending, FailsRecoverably (readChain stop depth pending lexemes)) ∧
      FailsRecoverably (readOperand stop depth lexemes) := by
  induction depth generalizing lexemes with
  | zero => exact ⟨rfl, fun _ => rfl, rfl⟩
  | succ depth ih =>
      refine ⟨?_, fun pending => ?_, ?_⟩
      · have operand := (ih lexemes).2.2
        unfold readFormula
        split
        · rename_i failed
          exact operand.of_error failed
        · exact (ih _).2.1 _
      · unfold readChain
        split
        · split
          · rfl
          · rename_i rest _
            have operand := (ih rest).2.2
            split
            · rename_i failed
              exact operand.of_error failed
            · exact (ih _).2.1 _
        · trivial
      · unfold readOperand
        split
        · rfl
        · rename_i rest
          have body := (ih rest).2.2
          split
          · rename_i failed
            exact body.of_error failed
          · trivial
        · rename_i rest
          have body := (ih rest).1
          split
          · rename_i failed
            exact body.of_error failed
          · trivial
        · rfl
        · rfl
        · rename_i rest
          have inner := (ih rest).1
          split
          · rename_i failed
            exact inner.of_error failed
          · trivial
          · exact isRecoverable_leftover ..
        · exact readEquation_failsRecoverably ..
        · exact readAtom_failsRecoverably ..
        · rfl
        · rfl
        · rfl
        · rfl

theorem SurfaceFormula.parse_failsRecoverably (text : String) :
    FailsRecoverably (SurfaceFormula.parse text) := by
  have scanned := Lexeme.scan_failsRecoverably 0 text.toList
  unfold SurfaceFormula.parse
  split
  · rename_i failed
    exact scanned.of_error failed
  · rename_i lexemes _
    have read :=
      (readFormula_failsRecoverably text.utf8ByteSize (readingDepth lexemes) lexemes).1
    unfold SurfaceFormula.ofLexemes
    split
    · rename_i failed
      exact read.of_error failed
    · trivial
    · exact isRecoverable_leftover ..

end Entailment.FirstOrder

namespace Entailment.Propositional

/-! ## Propositional formulas -/

theorem Level.endName_failsRecoverably (position : Nat) (level : Level) :
    FailsRecoverably (level.endName position) := by
  unfold Level.endName
  split
  · trivial
  · split
    · rfl
    · trivial

theorem Level.addConnective_failsRecoverably (connective : Connective) (position : Nat)
    (level : Level) : FailsRecoverably (level.addConnective connective position) := by
  have ended := level.endName_failsRecoverably position
  unfold Level.addConnective
  cases done : level.endName position with
  | error error => exact ended.of_error done
  | ok named =>
      simp only [bind, Except.bind]
      split
      · trivial
      · split
        · trivial
        · rfl

theorem Level.finish_failsRecoverably (position : Nat) (level : Level) :
    FailsRecoverably (level.finish position) := by
  have ended := level.endName_failsRecoverably position
  unfold Level.finish
  cases done : level.endName position with
  | error error => exact ended.of_error done
  | ok named =>
      simp only [bind, Except.bind]
      split
      · split
        · trivial
        · rfl
      · split
        · rfl
        · split
          · trivial
          · trivial
          · trivial
          · split
            · trivial
            · rfl

theorem readLevels_failsRecoverably (level : Level) (outer : List Level) (position : Nat)
    (text : List Char) : FailsRecoverably (readLevels level outer position text) := by
  fun_induction readLevels level outer position text with
  | case1 => exact Level.finish_failsRecoverably ..
  | case2 | case3 | case5 | case8 | case12 | case13 | case16 | case21 => rfl
  | case6 =>
      rename_i failed
      exact (Level.finish_failsRecoverably ..).of_error failed
  | case10 | case14 | case17 | case19 =>
      rename_i failed
      exact (Level.addConnective_failsRecoverably ..).of_error failed
  | case23 =>
      rename_i failed
      exact (Level.endName_failsRecoverably ..).of_error failed
  | case4 | case7 | case9 | case11 | case15 | case18 | case20 | case22 | case24 | case25 =>
      rename_i ih
      exact ih

theorem Proposition.parse_failsRecoverably (text : String) :
    FailsRecoverably (Proposition.parse text) :=
  readLevels_failsRecoverably ..

end Entailment.Propositional
