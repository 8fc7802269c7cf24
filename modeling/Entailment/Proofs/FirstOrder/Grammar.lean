import Entailment.FirstOrder.Parser
import Mathlib.Tactic.Common

/-!
# The grammar of written formulas

The grammar is stated about tokens alone, without a reader.  A phrase is derived
from the beginning of a row of tokens, and what follows it is left.  The rules are

* `formula ::= implication | implication <=> implication`
* `implication ::= disjunction | disjunction => implication`
* `disjunction ::= conjunction | disjunction | conjunction`
* `conjunction ::= operand | conjunction ^ operand`
* `operand ::= ~ operand | quantifier variable formula | ( formula )`
  `| term = term | term ~= term | name arguments`
* `term ::= variable | name arguments`, with terms between parentheses as
  arguments or no arguments at all.

A quantified formula ends where the text ends or a parenthesis closes, and the
names `T` and `F` without arguments are truth constants.

The reader accepts exactly the rows of tokens from which a formula is derived, and
it returns that formula.  So the grammar is not ambiguous.
-/

namespace Entailment.FirstOrder

variable {lexemes left : List Lexeme} {f : SurfaceFormula} {tokens rest : List Token}
    {stop depth : Nat}

/-! ## Rules -/

mutual

/-- The rules for terms. -/
inductive DerivesTerm : List Token → SurfaceTerm → List Token → Prop
  | var (name : String) (rest : List Token) : DerivesTerm (.var name :: rest) (.var name) rest
  | app {name : String} {tokens rest : List Token} {args : List SurfaceTerm}
      (derivesArgs : DerivesArgs tokens args rest) :
      DerivesTerm (.word name :: tokens) (.app name args) rest

/-- The rules for what stands after a name. -/
inductive DerivesArgs : List Token → List SurfaceTerm → List Token → Prop
  | none (rest : List Token) : DerivesArgs rest [] rest
  | some {tokens rest : List Token} {args : List SurfaceTerm}
      (derivesTerms : DerivesTerms tokens args rest) :
      DerivesArgs (.openParen :: tokens) args rest

/-- The rules for terms up to a closing parenthesis. -/
inductive DerivesTerms : List Token → List SurfaceTerm → List Token → Prop
  | last {tokens rest : List Token} {t : SurfaceTerm}
      (derivesTerm : DerivesTerm tokens t (.closeParen :: rest)) : DerivesTerms tokens [t] rest
  | more {tokens others rest : List Token} {t : SurfaceTerm} {args : List SurfaceTerm}
      (derivesTerm : DerivesTerm tokens t (.comma :: others))
      (derivesTerms : DerivesTerms others args rest) : DerivesTerms tokens (t :: args) rest

end

/-- The kinds of phrases that stand for a formula, the loosest first. -/
inductive Category where
  | formula
  | implication
  | disjunction
  | conjunction
  | operand
  deriving DecidableEq, Repr

/-- Nothing follows but a closing parenthesis. -/
def EndsFormula (rest : List Token) : Prop :=
  ∀ token ∈ rest.head?, token = .closeParen

/-- The rules for formulas. -/
inductive Derives : Category → List Token → SurfaceFormula → List Token → Prop
  | single {tokens rest : List Token} {f : SurfaceFormula}
      (derives : Derives .implication tokens f rest) : Derives .formula tokens f rest
  | equiv {tokens others rest : List Token} {left right : SurfaceFormula}
      (derivesLeft : Derives .implication tokens left (.connective .equiv :: others))
      (derivesRight : Derives .implication others right rest) :
      Derives .formula tokens (.binary .equiv left right) rest
  | consequent {tokens rest : List Token} {f : SurfaceFormula}
      (derives : Derives .disjunction tokens f rest) : Derives .implication tokens f rest
  | implies {tokens others rest : List Token} {left right : SurfaceFormula}
      (derivesLeft : Derives .disjunction tokens left (.connective .implies :: others))
      (derivesRight : Derives .implication others right rest) :
      Derives .implication tokens (.binary .implies left right) rest
  | disjunct {tokens rest : List Token} {f : SurfaceFormula}
      (derives : Derives .conjunction tokens f rest) : Derives .disjunction tokens f rest
  | or {tokens others rest : List Token} {left right : SurfaceFormula}
      (derivesLeft : Derives .disjunction tokens left (.connective .or :: others))
      (derivesRight : Derives .conjunction others right rest) :
      Derives .disjunction tokens (.binary .or left right) rest
  | conjunct {tokens rest : List Token} {f : SurfaceFormula}
      (derives : Derives .operand tokens f rest) : Derives .conjunction tokens f rest
  | and {tokens others rest : List Token} {left right : SurfaceFormula}
      (derivesLeft : Derives .conjunction tokens left (.connective .and :: others))
      (derivesRight : Derives .operand others right rest) :
      Derives .conjunction tokens (.binary .and left right) rest
  | not {tokens rest : List Token} {f : SurfaceFormula}
      (derives : Derives .operand tokens f rest) :
      Derives .operand (.negation :: tokens) (.not f) rest
  | quantified {quantifier : Quantifier} {name : String} {tokens rest : List Token}
      {f : SurfaceFormula} (derives : Derives .formula tokens f rest) (ends : EndsFormula rest) :
      Derives .operand (.quantifier quantifier :: .var name :: tokens)
        (.quantified quantifier name f) rest
  | parentheses {tokens rest : List Token} {f : SurfaceFormula}
      (derives : Derives .formula tokens f (.closeParen :: rest)) :
      Derives .operand (.openParen :: tokens) f rest
  | equation {tokens others rest : List Token} {left right : SurfaceTerm}
      (derivesLeft : DerivesTerm tokens left (.equal :: others))
      (derivesRight : DerivesTerm others right rest) :
      Derives .operand tokens (.atom (.equation left right)) rest
  | unequal {tokens others rest : List Token} {left right : SurfaceTerm}
      (derivesLeft : DerivesTerm tokens left (.notEqual :: others))
      (derivesRight : DerivesTerm others right rest) :
      Derives .operand tokens (.not (.atom (.equation left right))) rest
  | constant (value : Bool) (rest : List Token) :
      Derives .operand (.word (truthSymbol value) :: rest) (.truth value) rest
  | predicate {name : String} {tokens rest : List Token} {args : List SurfaceTerm}
      (derivesArgs : DerivesArgs tokens args rest)
      (notConstant : args = [] → ∀ value, name ≠ truthSymbol value) :
      Derives .operand (.word name :: tokens) (.atom (.predicate name args)) rest

/-- The tokens of some lexemes. -/
abbrev tokensOf (lexemes : List Lexeme) : List Token := lexemes.map Lexeme.token

/-! ## The reader keeps to the rules -/

/-- The readers of terms and arguments, by induction on the depth. -/
theorem derives_of_readTerms (stop depth : Nat) (lexemes : List Lexeme) :
    (∀ t left, readTerm stop depth lexemes = .ok (t, left) →
        DerivesTerm (tokensOf lexemes) t (tokensOf left)) ∧
      (∀ args left, readArgs stop depth lexemes = .ok (args, left) →
        DerivesArgs (tokensOf lexemes) args (tokensOf left)) ∧
      ∀ args left, readTerms stop depth lexemes = .ok (args, left) →
        DerivesTerms (tokensOf lexemes) args (tokensOf left) := by
  induction depth generalizing lexemes with
  | zero => exact ⟨nofun, nofun, nofun⟩
  | succ depth ih =>
      refine ⟨fun t left read => ?_, fun args left read => ?_, fun args left read => ?_⟩
      · unfold readTerm at read
        split at read
        · cases read
        · cases read
          exact .var ..
        · split at read
          · cases read
          · rename_i readArgs
            cases read
            exact .app ((ih _).2.1 _ _ readArgs)
        · cases read
      · unfold readArgs at read
        split at read
        · exact .some ((ih _).2.2 _ _ read)
        · cases read
          exact .none _
      · unfold readTerms at read
        split at read
        · cases read
        · rename_i readFirst
          cases read
          exact .last ((ih _).1 _ _ readFirst)
        · rename_i readFirst
          split at read
          · cases read
          · rename_i readOthers
            cases read
            exact .more ((ih _).1 _ _ readFirst) ((ih _).2.2 _ _ readOthers)
        · cases read
        · cases read

theorem DerivesArgs.eq_of_nil (derives : DerivesArgs tokens [] rest) : tokens = rest := by
  cases derives with
  | none => rfl
  | some derivesTerms => cases derivesTerms

theorem derives_of_readEquation {left : SurfaceTerm} {rest : List Lexeme}
    (derivesLeft : DerivesTerm tokens left (tokensOf lexemes))
    (read : readEquation stop depth left lexemes = .ok (f, rest)) :
    Derives .operand tokens f (tokensOf rest) := by
  unfold readEquation at read
  split at read
  · split at read
    · cases read
    · rename_i readRight
      cases read
      exact .equation derivesLeft ((derives_of_readTerms ..).1 _ _ readRight)
  · split at read
    · cases read
    · rename_i readRight
      cases read
      exact .unequal derivesLeft ((derives_of_readTerms ..).1 _ _ readRight)
  · cases read

/-- A name with its arguments is a truth constant or an atom. -/
theorem derives_ofName {name : String} {args : List SurfaceTerm}
    (derivesArgs : DerivesArgs tokens args rest) :
    Derives .operand (.word name :: tokens) (.ofName name args) rest := by
  unfold SurfaceFormula.ofName
  split
  · obtain rfl := derivesArgs.eq_of_nil
    split
    · rename_i isTrue
      rw [isTrue]
      exact .constant true _
    · split
      · rename_i isFalse
        rw [isFalse]
        exact .constant false _
      · rename_i notTrue notFalse
        refine .predicate derivesArgs fun _ value => ?_
        cases value with
        | true => exact notTrue
        | false => exact notFalse
  · rename_i hasArgs
    exact .predicate derivesArgs fun noArgs => absurd noArgs hasArgs

/-- A name that is no truth constant is a predicate. -/
theorem SurfaceFormula.ofName_eq_atom {name : String} {args : List SurfaceTerm}
    (notConstant : args = [] → ∀ value, name ≠ truthSymbol value) :
    SurfaceFormula.ofName name args = .atom (.predicate name args) := by
  unfold SurfaceFormula.ofName
  split
  · have notTrue : name ≠ "T" := notConstant rfl true
    have notFalse : name ≠ "F" := notConstant rfl false
    rw [if_neg notTrue, if_neg notFalse]
  · rfl

theorem derives_of_readAtom {name : String} {rest : List Lexeme}
    (read : readAtom stop depth name lexemes = .ok (f, rest)) :
    Derives .operand (.word name :: tokensOf lexemes) f (tokensOf rest) := by
  unfold readAtom at read
  split at read
  · cases read
  · rename_i readArgs
    have derivesArgs := (derives_of_readTerms ..).2.1 _ _ readArgs
    split at read
    · exact derives_of_readEquation (.app derivesArgs) read
    · cases read
      exact derives_ofName derivesArgs

/-- What follows can follow an operand. -/
def EndsOperand (rest : List Token) : Prop :=
  ∀ token ∈ rest.head?, token = .closeParen ∨ ∃ connective, token = .connective connective

theorem EndsFormula.endsOperand (ends : EndsFormula rest) : EndsOperand rest :=
  fun token next => .inl (ends token next)

theorem endsOperand_connective (connective : Connective) (rest : List Token) :
    EndsOperand (.connective connective :: rest) := by
  rintro token ⟨⟩
  exact .inr ⟨connective, rfl⟩

theorem endsFormula_closeParen (rest : List Token) : EndsFormula (.closeParen :: rest) := by
  rintro token ⟨⟩
  rfl

/-- The tokens that are read before the right side of a connective: the left side
with the connective, or nothing. -/
inductive Awaits (category : Category) (connective : Connective) :
    List Token → Option SurfaceFormula → List Token → Prop
  | nothing (tokens : List Token) : Awaits category connective tokens none tokens
  | left {tokens rest : List Token} {f : SurfaceFormula}
      (derives : Derives category tokens f (.connective connective :: rest)) :
      Awaits category connective tokens (some f) rest

/-- The tokens of some antecedents, the nearest of which comes last. -/
inductive AwaitsConsequent : List Token → List SurfaceFormula → List Token → Prop
  | nothing (tokens : List Token) : AwaitsConsequent tokens [] tokens
  | left {tokens others rest : List Token} {f : SurfaceFormula} {antecedents : List SurfaceFormula}
      (before : AwaitsConsequent tokens antecedents others)
      (derives : Derives .disjunction others f (.connective .implies :: rest)) :
      AwaitsConsequent tokens (f :: antecedents) rest

/-- A pending formula that is derived part by part. -/
def Pending.IsDerived (tokens : List Token) (pending : Pending) (rest : List Token) : Prop :=
  ∃ first second third, Awaits .implication .equiv tokens pending.equivalence first ∧
    AwaitsConsequent first pending.antecedents second ∧
    Awaits .disjunction .or second pending.disjunction third ∧
    Derives .conjunction third pending.conjunction rest

namespace Pending

variable {tokens others rest : List Token} {pending : Pending} {operand : SurfaceFormula}

theorem derives_closeDisjunction
    (awaits : Awaits .disjunction .or tokens pending.disjunction others)
    (derives : Derives .conjunction others pending.conjunction rest) :
    Derives .disjunction tokens pending.closeDisjunction rest := by
  unfold closeDisjunction
  cases left : pending.disjunction with
  | none =>
      rw [left] at awaits
      cases awaits
      exact .disjunct derives
  | some f =>
      rw [left] at awaits
      cases awaits with
      | left derivesLeft => exact .or derivesLeft derives

theorem derives_antecedents {antecedents : List SurfaceFormula}
    (awaits : AwaitsConsequent tokens antecedents others)
    (derives : Derives .implication others f rest) :
    Derives .implication tokens
      (antecedents.foldl (fun right left => .binary .implies left right) f) rest := by
  induction awaits generalizing f with
  | nothing => exact derives
  | left before derivesLeft ih => exact ih (.implies derivesLeft derives)

theorem IsDerived.start (derives : Derives .operand tokens operand rest) :
    (Pending.start operand).IsDerived tokens rest :=
  ⟨tokens, tokens, tokens, .nothing _, .nothing _, .nothing _, .conjunct derives⟩

theorem IsDerived.closeImplication (isDerived : pending.IsDerived tokens rest) :
    ∃ first, Awaits .implication .equiv tokens pending.equivalence first ∧
      Derives .implication first pending.closeImplication rest := by
  obtain ⟨first, second, third, awaitsEquiv, awaitsConsequent, awaitsOr, derives⟩ := isDerived
  exact ⟨first, awaitsEquiv, derives_antecedents awaitsConsequent
    (.consequent (derives_closeDisjunction awaitsOr derives))⟩

theorem IsDerived.close (isDerived : pending.IsDerived tokens rest) :
    Derives .formula tokens pending.close rest := by
  obtain ⟨first, awaits, derives⟩ := isDerived.closeImplication
  unfold Pending.close
  cases left : pending.equivalence with
  | none =>
      rw [left] at awaits
      cases awaits
      exact .single derives
  | some f =>
      rw [left] at awaits
      cases awaits with
      | left derivesLeft => exact .equiv derivesLeft derives

/-- A connective and the operand after it.  There is one `<=>` at most. -/
theorem IsDerived.extend {connective : Connective}
    (isDerived : pending.IsDerived tokens (.connective connective :: others))
    (derives : Derives .operand others operand rest)
    (once : connective = .equiv → pending.equivalence = none) :
    (pending.extend connective operand).IsDerived tokens rest := by
  cases connective with
  | and =>
      obtain ⟨first, second, third, awaitsEquiv, awaitsConsequent, awaitsOr, derivesLeft⟩ :=
        isDerived
      exact ⟨first, second, third, awaitsEquiv, awaitsConsequent, awaitsOr,
        .and derivesLeft derives⟩
  | or =>
      obtain ⟨first, second, third, awaitsEquiv, awaitsConsequent, awaitsOr, derivesLeft⟩ :=
        isDerived
      exact ⟨first, second, others, awaitsEquiv, awaitsConsequent,
        .left (derives_closeDisjunction awaitsOr derivesLeft), .conjunct derives⟩
  | implies =>
      obtain ⟨first, second, third, awaitsEquiv, awaitsConsequent, awaitsOr, derivesLeft⟩ :=
        isDerived
      exact ⟨first, others, others, awaitsEquiv,
        .left awaitsConsequent (derives_closeDisjunction awaitsOr derivesLeft), .nothing _,
        .conjunct derives⟩
  | equiv =>
      obtain ⟨first, awaits, derivesLeft⟩ := isDerived.closeImplication
      rw [once rfl] at awaits
      cases awaits
      exact ⟨others, others, others, .left derivesLeft, .nothing _, .nothing _, .conjunct derives⟩

end Pending

/-- Where a chain of operands ends no connective follows. -/
theorem not_connective_of_readChain {pending : Pending}
    (read : readChain stop depth pending lexemes = .ok (f, left)) (connective : Connective) :
    (tokensOf left).head? ≠ some (.connective connective) := by
  induction depth generalizing pending lexemes with
  | zero => cases read
  | succ depth ih =>
      unfold readChain at read
      split at read
      · split at read
        · cases read
        · split at read
          · cases read
          · exact ih read
      · rename_i notConnective
        cases read
        cases left with
        | nil => simp
        | cons lexeme rest =>
            intro isConnective
            obtain ⟨position, token⟩ := lexeme
            simp only [List.map_cons, List.head?_cons, Option.some.injEq] at isConnective
            subst isConnective
            exact notConnective position connective rest rfl

theorem endsFormula_of_readFormula (read : readFormula stop depth lexemes = .ok (f, left))
    (ends : EndsOperand (tokensOf left)) : EndsFormula (tokensOf left) := by
  cases depth with
  | zero => cases read
  | succ depth =>
      unfold readFormula at read
      split at read
      · cases read
      · intro token next
        rcases ends token next with isClose | ⟨connective, rfl⟩
        · exact isClose
        · exact absurd next (not_connective_of_readChain read connective)

/-- The readers of formulas, by induction on the depth.  What they have read is
derived if it is followed by something that can follow it; otherwise the text is
refused later. -/
theorem derives_of_readFormula (stop depth : Nat) (lexemes : List Lexeme) :
    (∀ f left, readFormula stop depth lexemes = .ok (f, left) → EndsOperand (tokensOf left) →
        Derives .formula (tokensOf lexemes) f (tokensOf left)) ∧
      (∀ tokens pending f left, readChain stop depth pending lexemes = .ok (f, left) →
        (EndsOperand (tokensOf lexemes) → pending.IsDerived tokens (tokensOf lexemes)) →
        EndsOperand (tokensOf left) → Derives .formula tokens f (tokensOf left)) ∧
      ∀ f left, readOperand stop depth lexemes = .ok (f, left) → EndsOperand (tokensOf left) →
        Derives .operand (tokensOf lexemes) f (tokensOf left) := by
  induction depth generalizing lexemes with
  | zero => exact ⟨nofun, nofun, nofun⟩
  | succ depth ih =>
      refine ⟨fun f left read ends => ?_, fun tokens pending f left read isDerived ends => ?_,
        fun f left read ends => ?_⟩
      · unfold readFormula at read
        split at read
        · cases read
        · rename_i operand rest readFirst
          exact (ih rest).2.1 _ _ _ _ read
            (fun follows => .start ((ih lexemes).2.2 _ _ readFirst follows)) ends
      · unfold readChain at read
        split at read
        · rename_i position connective rest
          split at read
          · cases read
          · rename_i notTwice
            split at read
            · cases read
            · rename_i operand others readNext
              refine (ih others).2.1 _ _ _ _ read (fun follows => ?_) ends
              refine (isDerived (endsOperand_connective _ _)).extend
                ((ih rest).2.2 _ _ readNext follows) fun isEquiv => ?_
              rw [← Option.not_isSome_iff_eq_none]
              exact fun isSome => notTwice ⟨isEquiv, isSome⟩
        · cases read
          exact (isDerived ends).close
      · unfold readOperand at read
        split at read
        · cases read
        · split at read
          · cases read
          · rename_i readBody
            cases read
            exact .not ((ih _).2.2 _ _ readBody ends)
        · split at read
          · cases read
          · rename_i readBody
            cases read
            exact .quantified ((ih _).1 _ _ readBody ends)
              (endsFormula_of_readFormula readBody ends)
        · cases read
        · cases read
        · split at read
          · cases read
          · rename_i readInner
            cases read
            exact .parentheses ((ih _).1 _ _ readInner (endsFormula_closeParen _).endsOperand)
          · cases read
        · exact derives_of_readEquation (.var ..) read
        · exact derives_of_readAtom read
        · cases read
        · cases read
        · cases read
        · cases read

/-! ## The reader follows every derivation -/

/-- A reader returns a value and leaves some lexemes, whenever its depth suffices. -/
def Reads {α : Type} (needed : Nat) (read : Nat → Reading α) (value : α) (left : List Lexeme) :
    Prop :=
  ∀ depth, needed ≤ depth → read depth = .ok (value, left)

/-- What follows cannot be an argument of what stands before it. -/
def EndsTerm (rest : List Token) : Prop :=
  rest.head? ≠ some .openParen

theorem EndsOperand.endsTerm (ends : EndsOperand rest) : EndsTerm rest := by
  intro isOpen
  rcases ends _ isOpen with isClose | ⟨_, isConnective⟩
  · cases isClose
  · cases isConnective

theorem tokensOf_eq_cons {token : Token} (same : tokensOf lexemes = token :: tokens) :
    ∃ position rest, lexemes = ⟨position, token⟩ :: rest ∧ tokensOf rest = tokens := by
  obtain ⟨⟨position, other⟩, rest, rfl, rfl, rfl⟩ := List.map_eq_cons_iff.mp same
  exact ⟨position, rest, rfl, rfl⟩

mutual

theorem readTerm_of_derives (stop : Nat) {tokens rest : List Token} {t : SurfaceTerm}
    (derives : DerivesTerm tokens t rest) (ends : EndsTerm rest) {lexemes : List Lexeme}
    (same : tokensOf lexemes = tokens) :
    ∃ left, tokensOf left = rest ∧ left.length < lexemes.length ∧
      Reads (2 * lexemes.length) (readTerm stop · lexemes) t left := by
  cases derives with
  | var name =>
      obtain ⟨position, left, rfl, sameRest⟩ := tokensOf_eq_cons same
      refine ⟨left, sameRest, Nat.lt_succ_self _, fun depth enough => ?_⟩
      cases depth with
      | zero => simp at enough
      | succ depth => rfl
  | app derivesArgs =>
      obtain ⟨position, others, rfl, sameRest⟩ := tokensOf_eq_cons same
      obtain ⟨left, sameLeft, shorter, reads⟩ := readArgs_of_derives stop derivesArgs ends sameRest
      refine ⟨left, sameLeft, Nat.lt_succ_of_le shorter, fun depth enough => ?_⟩
      cases depth with
      | zero => simp at enough
      | succ depth =>
          rw [List.length_cons] at enough
          simp only [readTerm, reads depth (by omega)]

theorem readArgs_of_derives (stop : Nat) {tokens rest : List Token} {args : List SurfaceTerm}
    (derives : DerivesArgs tokens args rest) (ends : EndsTerm rest) {lexemes : List Lexeme}
    (same : tokensOf lexemes = tokens) :
    ∃ left, tokensOf left = rest ∧ left.length ≤ lexemes.length ∧
      Reads (2 * lexemes.length + 1) (readArgs stop · lexemes) args left := by
  cases derives with
  | none =>
      refine ⟨lexemes, same, Nat.le_refl _, fun depth enough => ?_⟩
      cases depth with
      | zero => simp at enough
      | succ depth =>
          simp only [readArgs]
          split
          · exact absurd (congrArg List.head? same.symm) ends
          · rfl
  | some derivesTerms =>
      obtain ⟨position, others, rfl, sameRest⟩ := tokensOf_eq_cons same
      obtain ⟨left, sameLeft, shorter, reads⟩ := readTerms_of_derives stop derivesTerms sameRest
      refine ⟨left, sameLeft, Nat.le_succ_of_le (Nat.le_of_lt shorter), fun depth enough => ?_⟩
      cases depth with
      | zero => simp at enough
      | succ depth =>
          rw [List.length_cons] at enough
          exact reads depth (by omega)

theorem readTerms_of_derives (stop : Nat) {tokens rest : List Token} {args : List SurfaceTerm}
    (derives : DerivesTerms tokens args rest) {lexemes : List Lexeme}
    (same : tokensOf lexemes = tokens) :
    ∃ left, tokensOf left = rest ∧ left.length < lexemes.length ∧
      Reads (2 * lexemes.length + 1) (readTerms stop · lexemes) args left := by
  cases derives with
  | last derivesTerm =>
      obtain ⟨closed, sameClosed, shorter, reads⟩ :=
        readTerm_of_derives stop derivesTerm (by simp [EndsTerm]) same
      obtain ⟨position, left, rfl, sameLeft⟩ := tokensOf_eq_cons sameClosed
      refine ⟨left, sameLeft, Nat.lt_of_succ_lt shorter, fun depth enough => ?_⟩
      cases depth with
      | zero => simp at enough
      | succ depth => simp only [readTerms, reads depth (by omega)]
  | more derivesTerm derivesTerms =>
      obtain ⟨separated, sameSeparated, shorter, reads⟩ :=
        readTerm_of_derives stop derivesTerm (by simp [EndsTerm]) same
      obtain ⟨position, others, rfl, sameOthers⟩ := tokensOf_eq_cons sameSeparated
      obtain ⟨left, sameLeft, shorterLeft, readsOthers⟩ :=
        readTerms_of_derives stop derivesTerms sameOthers
      rw [List.length_cons] at shorter
      refine ⟨left, sameLeft, by omega, fun depth enough => ?_⟩
      cases depth with
      | zero => simp at enough
      | succ depth =>
          simp only [readTerms, reads depth (by omega), readsOthers depth (by omega)]

end

/-- The rest of an equation after its left side. -/
theorem readEquation_of_derives (stop : Nat) {others : List Token} {left right : SurfaceTerm}
    (derives : DerivesTerm others right rest) (ends : EndsTerm rest) {equation : List Lexeme} :
    (tokensOf equation = .equal :: others → ∃ after, tokensOf after = rest ∧
      after.length < equation.length ∧ Reads (2 * equation.length)
        (readEquation stop · left equation) (.atom (.equation left right)) after) ∧
    (tokensOf equation = .notEqual :: others → ∃ after, tokensOf after = rest ∧
      after.length < equation.length ∧ Reads (2 * equation.length)
        (readEquation stop · left equation) (.not (.atom (.equation left right))) after) := by
  constructor <;>
  · intro same
    obtain ⟨position, lexemes, rfl, sameRest⟩ := tokensOf_eq_cons same
    obtain ⟨after, sameAfter, shorter, reads⟩ := readTerm_of_derives stop derives ends sameRest
    refine ⟨after, sameAfter, Nat.lt_succ_of_lt shorter, fun depth enough => ?_⟩
    rw [List.length_cons] at enough
    simp only [readEquation, reads depth (by omega)]

/-- An operand that is read from some lexemes. -/
def ReadsOperand (stop : Nat) (lexemes : List Lexeme) (f : SurfaceFormula) (left : List Lexeme) :
    Prop :=
  left.length < lexemes.length ∧ Reads (2 * lexemes.length) (readOperand stop · lexemes) f left

/-- Where something is read, the depth does not run out at once. -/
theorem ReadsOperand.of_step (shorter : left.length < lexemes.length)
    (step : ∀ depth, 2 * lexemes.length ≤ depth + 1 →
      readOperand stop (depth + 1) lexemes = .ok (f, left)) :
    ReadsOperand stop lexemes f left := by
  refine ⟨shorter, fun depth enough => ?_⟩
  cases depth with
  | zero => omega
  | succ depth => exact step depth enough

/-! ### Chains of operands -/

/-- A chain goes on from one pending formula to another. -/
def GoesOn (stop : Nat) (pending : Pending) (lexemes : List Lexeme) (after : Pending)
    (left : List Lexeme) : Prop :=
  left.length ≤ lexemes.length ∧ ∀ depth, 2 * lexemes.length + 1 ≤ depth →
    ∃ deeper, 2 * left.length + 1 ≤ deeper ∧
      readChain stop depth pending lexemes = readChain stop deeper after left

/-- An operand is read, and the chain after it goes on to a pending formula.  What
the operand makes of the pending formula before it is given by `gate`. -/
def Builds (stop : Nat) (gate : SurfaceFormula → Pending) (lexemes : List Lexeme) (after : Pending)
    (left : List Lexeme) : Prop :=
  ∃ operand rest, ReadsOperand stop lexemes operand rest ∧
    GoesOn stop (gate operand) rest after left

theorem ReadsOperand.builds {operand : SurfaceFormula}
    (reads : ReadsOperand stop lexemes operand left) (gate : SurfaceFormula → Pending) :
    Builds stop gate lexemes (gate operand) left :=
  ⟨operand, left, reads, Nat.le_refl _, fun depth enough => ⟨depth, enough, rfl⟩⟩

/-- A connective, after which another chain is built. -/
theorem Builds.extend {stop : Nat} {gate : SurfaceFormula → Pending}
    {lexemes others left : List Lexeme} {pending after : Pending} {position : Nat}
    {connective : Connective}
    (builds : Builds stop gate lexemes pending (⟨position, .connective connective⟩ :: others))
    (once : connective = .equiv → pending.equivalence = none)
    (next : Builds stop (pending.extend connective) others after left) :
    Builds stop gate lexemes after left := by
  obtain ⟨operand, rest, reads, noLonger, goesOn⟩ := builds
  obtain ⟨second, secondRest, ⟨shorter, readsSecond⟩, secondNoLonger, secondGoesOn⟩ := next
  rw [List.length_cons] at noLonger
  refine ⟨operand, rest, reads, by omega, fun depth enough => ?_⟩
  obtain ⟨deeper, deepEnough, sameChain⟩ := goesOn depth enough
  rw [List.length_cons] at deepEnough
  cases deeper with
  | zero => omega
  | succ deeper =>
      obtain ⟨deepest, deepestEnough, secondChain⟩ := secondGoesOn deeper (by omega)
      refine ⟨deepest, deepestEnough, sameChain.trans ?_⟩
      have notTwice : ¬(connective = .equiv ∧ pending.equivalence.isSome = true) := by
        rintro ⟨isEquiv, isSome⟩
        simp [once isEquiv] at isSome
      simp only [readChain, if_neg notTwice, readsSecond deeper (by omega)]
      exact secondChain

/-- What reading a phrase does, by its kind. -/
def Category.Reads (stop : Nat) (lexemes : List Lexeme) (f : SurfaceFormula) (left : List Lexeme) :
    Category → Prop
  | .operand => ReadsOperand stop lexemes f left
  | .conjunction => ∀ equivalence antecedents disjunction,
      Builds stop (fun operand => ⟨equivalence, antecedents, disjunction, operand⟩) lexemes
        ⟨equivalence, antecedents, disjunction, f⟩ left
  | .disjunction => ∀ equivalence antecedents, ∃ after : Pending,
      after.equivalence = equivalence ∧ after.antecedents = antecedents ∧
        after.closeDisjunction = f ∧
        Builds stop (fun operand => ⟨equivalence, antecedents, none, operand⟩) lexemes after left
  | .implication => ∀ equivalence antecedents, ∃ after : Pending,
      after.equivalence = equivalence ∧
        after.closeImplication =
          antecedents.foldl (fun right left => .binary .implies left right) f ∧
        Builds stop (fun operand => ⟨equivalence, antecedents, none, operand⟩) lexemes after left
  | .formula => ∃ after : Pending, after.close = f ∧ Builds stop .start lexemes after left

/-- A formula that ends is read to its end. -/
theorem readFormula_of_reads (reads : Category.formula.Reads stop lexemes f left)
    (ends : EndsFormula (tokensOf left)) :
    left.length < lexemes.length ∧
      Reads (2 * lexemes.length + 1) (readFormula stop · lexemes) f left := by
  obtain ⟨after, rfl, operand, rest, ⟨shorter, readsOperand⟩, noLonger, goesOn⟩ := reads
  refine ⟨by omega, fun depth enough => ?_⟩
  cases depth with
  | zero => omega
  | succ depth =>
      obtain ⟨deeper, deepEnough, sameChain⟩ := goesOn depth (by omega)
      simp only [readFormula, readsOperand depth (by omega)]
      rw [sameChain]
      cases deeper with
      | zero => omega
      | succ deeper =>
          unfold readChain
          split
          · cases ends _ rfl
          · rfl

/-- From lexemes with some tokens a phrase is read, and lexemes with the tokens that
follow it are left. -/
def Category.ReadsFrom (stop : Nat) (tokens : List Token) (f : SurfaceFormula) (rest : List Token)
    (category : Category) : Prop :=
  ∀ ⦃lexemes⦄, tokensOf lexemes = tokens →
    ∃ left, tokensOf left = rest ∧ category.Reads stop lexemes f left

/-! ### One rule after the other -/

namespace Category.ReadsFrom

variable {others : List Token} {g : SurfaceFormula}

/-- Two phrases with a connective between them. -/
theorem split {category second : Category} {connective : Connective}
    (readsLeft : category.ReadsFrom stop tokens f (.connective connective :: others))
    (readsRight : second.ReadsFrom stop others g rest) (same : tokensOf lexemes = tokens) :
    ∃ position middle left, tokensOf left = rest ∧
      category.Reads stop lexemes f (⟨position, .connective connective⟩ :: middle) ∧
      second.Reads stop middle g left := by
  obtain ⟨_, sameMiddle, reads⟩ := readsLeft same
  obtain ⟨position, middle, rfl, sameOthers⟩ := tokensOf_eq_cons sameMiddle
  obtain ⟨left, sameLeft, readsNext⟩ := readsRight sameOthers
  exact ⟨position, middle, left, sameLeft, reads, readsNext⟩

theorem single (readsFrom : implication.ReadsFrom stop tokens f rest) :
    formula.ReadsFrom stop tokens f rest := by
  intro lexemes same
  obtain ⟨left, sameLeft, reads⟩ := readsFrom same
  obtain ⟨after, isNone, isClosed, builds⟩ := reads none []
  refine ⟨left, sameLeft, after, ?_, builds⟩
  rw [Pending.close, isNone]
  exact isClosed

theorem equiv (readsLeft : implication.ReadsFrom stop tokens f (.connective .equiv :: others))
    (readsRight : implication.ReadsFrom stop others g rest) :
    formula.ReadsFrom stop tokens (.binary .equiv f g) rest := by
  intro lexemes same
  obtain ⟨position, middle, left, sameLeft, reads, readsNext⟩ := readsLeft.split readsRight same
  obtain ⟨before, isNone, isClosed, builds⟩ := reads none []
  obtain ⟨after, isSome, isClosedAfter, buildsAfter⟩ := readsNext (some before.closeImplication) []
  refine ⟨left, sameLeft, after, ?_, builds.extend (fun _ => isNone) buildsAfter⟩
  rw [Pending.close, isSome, isClosed, isClosedAfter]
  rfl

theorem consequent (readsFrom : disjunction.ReadsFrom stop tokens f rest) :
    implication.ReadsFrom stop tokens f rest := by
  intro lexemes same
  obtain ⟨left, sameLeft, reads⟩ := readsFrom same
  refine ⟨left, sameLeft, fun equivalence antecedents => ?_⟩
  obtain ⟨after, sameEquivalence, sameAntecedents, isClosed, builds⟩ :=
    reads equivalence antecedents
  refine ⟨after, sameEquivalence, ?_, builds⟩
  rw [Pending.closeImplication, sameAntecedents, isClosed]

theorem implies (readsLeft : disjunction.ReadsFrom stop tokens f (.connective .implies :: others))
    (readsRight : implication.ReadsFrom stop others g rest) :
    implication.ReadsFrom stop tokens (.binary .implies f g) rest := by
  intro lexemes same
  obtain ⟨position, middle, left, sameLeft, reads, readsNext⟩ := readsLeft.split readsRight same
  refine ⟨left, sameLeft, fun equivalence antecedents => ?_⟩
  obtain ⟨before, rfl, rfl, rfl, builds⟩ := reads equivalence antecedents
  obtain ⟨after, sameEquivalence, isClosed, buildsAfter⟩ :=
    readsNext before.equivalence (before.closeDisjunction :: before.antecedents)
  exact ⟨after, sameEquivalence, isClosed, builds.extend nofun buildsAfter⟩

theorem disjunct (readsFrom : conjunction.ReadsFrom stop tokens f rest) :
    disjunction.ReadsFrom stop tokens f rest := by
  intro lexemes same
  obtain ⟨left, sameLeft, reads⟩ := readsFrom same
  exact ⟨left, sameLeft, fun equivalence antecedents =>
    ⟨_, rfl, rfl, rfl, reads equivalence antecedents none⟩⟩

theorem or (readsLeft : disjunction.ReadsFrom stop tokens f (.connective .or :: others))
    (readsRight : conjunction.ReadsFrom stop others g rest) :
    disjunction.ReadsFrom stop tokens (.binary .or f g) rest := by
  intro lexemes same
  obtain ⟨position, middle, left, sameLeft, reads, readsNext⟩ := readsLeft.split readsRight same
  refine ⟨left, sameLeft, fun equivalence antecedents => ?_⟩
  obtain ⟨before, rfl, rfl, rfl, builds⟩ := reads equivalence antecedents
  exact ⟨⟨before.equivalence, before.antecedents, some before.closeDisjunction, g⟩,
    rfl, rfl, rfl, builds.extend nofun
      (readsNext before.equivalence before.antecedents (some before.closeDisjunction))⟩

theorem conjunct (readsFrom : operand.ReadsFrom stop tokens f rest) :
    conjunction.ReadsFrom stop tokens f rest := by
  intro lexemes same
  obtain ⟨left, sameLeft, reads⟩ := readsFrom same
  exact ⟨left, sameLeft, fun equivalence antecedents disjunction =>
    ReadsOperand.builds reads fun operand => ⟨equivalence, antecedents, disjunction, operand⟩⟩

theorem and (readsLeft : conjunction.ReadsFrom stop tokens f (.connective .and :: others))
    (readsRight : operand.ReadsFrom stop others g rest) :
    conjunction.ReadsFrom stop tokens (.binary .and f g) rest := by
  intro lexemes same
  obtain ⟨position, middle, left, sameLeft, reads, readsNext⟩ := readsLeft.split readsRight same
  exact ⟨left, sameLeft, fun equivalence antecedents disjunction =>
    (reads equivalence antecedents disjunction).extend nofun (ReadsOperand.builds readsNext _)⟩

theorem not (readsFrom : operand.ReadsFrom stop tokens f rest) :
    operand.ReadsFrom stop (.negation :: tokens) (.not f) rest := by
  intro lexemes same
  obtain ⟨position, others, rfl, sameOthers⟩ := tokensOf_eq_cons same
  obtain ⟨left, sameLeft, shorter, reads⟩ := readsFrom sameOthers
  refine ⟨left, sameLeft, .of_step (Nat.lt_succ_of_lt shorter) fun depth enough => ?_⟩
  rw [List.length_cons] at enough
  simp only [readOperand, reads depth (by omega)]

theorem quantified {quantifier : Quantifier} {name : String} (ends : EndsFormula rest)
    (readsFrom : formula.ReadsFrom stop tokens f rest) :
    operand.ReadsFrom stop (.quantifier quantifier :: .var name :: tokens)
      (.quantified quantifier name f) rest := by
  intro lexemes same
  obtain ⟨position, bound, rfl, sameBound⟩ := tokensOf_eq_cons same
  obtain ⟨second, others, rfl, sameOthers⟩ := tokensOf_eq_cons sameBound
  obtain ⟨left, rfl, readsFormula⟩ := readsFrom sameOthers
  obtain ⟨shorter, reads⟩ := readFormula_of_reads readsFormula ends
  refine ⟨left, rfl, .of_step (by simp only [List.length_cons]; omega) fun depth enough => ?_⟩
  simp only [List.length_cons] at enough
  simp only [readOperand, reads depth (by omega)]

theorem parentheses (readsFrom : formula.ReadsFrom stop tokens f (.closeParen :: rest)) :
    operand.ReadsFrom stop (.openParen :: tokens) f rest := by
  intro lexemes same
  obtain ⟨position, inner, rfl, sameInner⟩ := tokensOf_eq_cons same
  obtain ⟨closed, sameClosed, readsFormula⟩ := readsFrom sameInner
  obtain ⟨second, left, rfl, sameLeft⟩ := tokensOf_eq_cons sameClosed
  obtain ⟨shorter, reads⟩ := readFormula_of_reads readsFormula (endsFormula_closeParen _)
  rw [List.length_cons] at shorter
  refine ⟨left, sameLeft, .of_step (by rw [List.length_cons]; omega) fun depth enough => ?_⟩
  rw [List.length_cons] at enough
  simp only [readOperand, reads depth (by omega)]

/-- An equation, once its left side is derived and the rest of it is read. -/
theorem equation {sign : Token} {term : SurfaceTerm} (isSign : sign = .equal ∨ sign = .notEqual)
    (derives : DerivesTerm tokens term (sign :: others))
    (reads : ∀ equation, tokensOf equation = sign :: others → ∃ left, tokensOf left = rest ∧
      left.length < equation.length ∧
      FirstOrder.Reads (2 * equation.length) (readEquation stop · term equation) f left) :
    operand.ReadsFrom stop tokens f rest := by
  intro lexemes same
  cases derives with
  | var name =>
      obtain ⟨position, equation, rfl, sameRest⟩ := tokensOf_eq_cons same
      obtain ⟨left, sameLeft, shorter, readsRest⟩ := reads equation sameRest
      refine ⟨left, sameLeft, .of_step (Nat.lt_succ_of_lt shorter) fun depth enough => ?_⟩
      rw [List.length_cons] at enough
      exact readsRest depth (by omega)
  | app derivesArgs =>
      obtain ⟨position, inner, rfl, sameRest⟩ := tokensOf_eq_cons same
      have endsArgs : EndsTerm (sign :: others) := by
        rcases isSign with rfl | rfl <;> simp [EndsTerm]
      obtain ⟨equation, sameEquation, noLonger, readsArgs⟩ :=
        readArgs_of_derives stop derivesArgs endsArgs sameRest
      obtain ⟨left, sameLeft, shorter, readsRest⟩ := reads equation sameEquation
      have starts : startsEquation equation = true := by
        obtain ⟨position, _, rfl, -⟩ := tokensOf_eq_cons sameEquation
        rcases isSign with rfl | rfl <;> rfl
      refine ⟨left, sameLeft, .of_step (by simp; omega) fun depth enough => ?_⟩
      rw [List.length_cons] at enough
      simp only [readOperand, readAtom, readsArgs depth (by omega), starts, if_true]
      exact readsRest depth (by omega)

/-- A name with its arguments, where no equation follows. -/
theorem name {name : String} {args : List SurfaceTerm} (derives : DerivesArgs tokens args rest)
    (ends : EndsOperand rest) :
    operand.ReadsFrom stop (.word name :: tokens) (.ofName name args) rest := by
  intro lexemes same
  obtain ⟨position, others, rfl, sameRest⟩ := tokensOf_eq_cons same
  obtain ⟨left, rfl, noLonger, reads⟩ :=
    readArgs_of_derives stop derives ends.endsTerm sameRest
  have starts : startsEquation left = false := by
    unfold startsEquation
    split
    · rcases ends _ rfl with ⟨⟨⟩⟩ | ⟨_, ⟨⟩⟩
    · rcases ends _ rfl with ⟨⟨⟩⟩ | ⟨_, ⟨⟩⟩
    · rfl
  refine ⟨left, rfl, .of_step (Nat.lt_succ_of_le noLonger) fun depth enough => ?_⟩
  rw [List.length_cons] at enough
  simp only [readOperand, readAtom, reads depth (by omega), starts, Bool.false_eq_true, if_false]

end Category.ReadsFrom

/-- The reader follows every derivation that ends well, by induction on the
derivation. -/
theorem readsFrom_of_derives (stop : Nat) {category : Category}
    (derives : Derives category tokens f rest) (ends : EndsOperand rest) :
    category.ReadsFrom stop tokens f rest := by
  induction derives with
  | single _ ih => exact (ih ends).single
  | equiv _ _ ihLeft ihRight => exact (ihLeft (endsOperand_connective _ _)).equiv (ihRight ends)
  | consequent _ ih => exact (ih ends).consequent
  | implies _ _ ihLeft ihRight =>
      exact (ihLeft (endsOperand_connective _ _)).implies (ihRight ends)
  | disjunct _ ih => exact (ih ends).disjunct
  | or _ _ ihLeft ihRight => exact (ihLeft (endsOperand_connective _ _)).or (ihRight ends)
  | conjunct _ ih => exact (ih ends).conjunct
  | and _ _ ihLeft ihRight => exact (ihLeft (endsOperand_connective _ _)).and (ihRight ends)
  | not _ ih => exact (ih ends).not
  | quantified _ endsFormula ih => exact (ih ends).quantified endsFormula
  | parentheses _ ih => exact (ih (endsFormula_closeParen _).endsOperand).parentheses
  | equation derivesLeft derivesRight =>
      exact .equation (.inl rfl) derivesLeft fun _ =>
        (readEquation_of_derives stop derivesRight ends.endsTerm).1
  | unequal derivesLeft derivesRight =>
      exact .equation (.inr rfl) derivesLeft fun _ =>
        (readEquation_of_derives stop derivesRight ends.endsTerm).2
  | constant value rest =>
      have reads (name : String) :
          Category.operand.ReadsFrom stop (.word name :: rest) (.ofName name []) rest :=
        .name (.none rest) ends
      cases value with
      | true => exact reads "T"
      | false => exact reads "F"
  | predicate derivesArgs notConstant =>
      rw [← SurfaceFormula.ofName_eq_atom notConstant]
      exact .name derivesArgs ends

/-- The lexemes from which a complete formula is read. -/
theorem SurfaceFormula.ofLexemes_eq_ok_iff (stop : Nat) (lexemes : List Lexeme)
    (f : SurfaceFormula) :
    SurfaceFormula.ofLexemes stop lexemes = .ok f ↔ Derives .formula (tokensOf lexemes) f [] := by
  constructor
  · intro done
    unfold SurfaceFormula.ofLexemes at done
    split at done
    · cases done
    · rename_i read
      cases done
      exact (derives_of_readFormula ..).1 _ _ read nofun
    · cases done
  · intro derives
    obtain ⟨left, noneLeft, readsFormula⟩ := readsFrom_of_derives stop derives nofun rfl
    obtain rfl := List.map_eq_nil_iff.mp noneLeft
    obtain ⟨-, reads⟩ := readFormula_of_reads readsFormula nofun
    have read : readFormula stop (readingDepth lexemes) lexemes = .ok (f, []) :=
      reads _ (Nat.le_succ _)
    rw [SurfaceFormula.ofLexemes, read]

/-- The grammar is not ambiguous. -/
theorem Derives.unique {g : SurfaceFormula} (derivesFirst : Derives .formula tokens f [])
    (derivesSecond : Derives .formula tokens g []) : f = g := by
  have same : tokensOf (tokens.map (Lexeme.mk 0)) = tokens := by
    simp [tokensOf, List.map_map, Function.comp_def]
  rw [← same, ← SurfaceFormula.ofLexemes_eq_ok_iff 0] at derivesFirst derivesSecond
  exact Except.ok.inj (derivesFirst.symm.trans derivesSecond)

end Entailment.FirstOrder
