import Entailment.Proofs.FirstOrder.AcceptedTexts
import Entailment.Proofs.FirstOrder.Naming
import Entailment.Proofs.Propositional.AcceptedTexts

/-!
# Texts that both readers accept

The first-order reader accepts the texts from whose tokens its grammar derives a
formula; the propositional reader takes a text character by character and allows one
connective in a level.  When both accept a text, what they read has the same truth
value.

The propositional reader is followed through the text along the derivation.  Every
operand that is derived raises the balance of the propositional level by at least
one, and by more if it has arguments or a quantifier, or if its name contains a
truth constant.  Every connective lowers the balance by one, and a level that ends
well has the balance one.  So each operand is a name, a truth constant or a formula
in parentheses, under negations, and the row of operands means the same to both.
-/

namespace Entailment.CommonTexts

open Entailment.FirstOrder Entailment.Propositional

variable {formula : SurfaceFormula} {proposition : Proposition} {level after : Level}

/-! ## Formulas that say the same -/

/-- A written formula without quantifiers whose atoms are predicates without
arguments. -/
structure IsPropositional (formula : SurfaceFormula) : Prop where
  isQuantifierFree : formula.isQuantifierFree = true
  atoms : formula.EveryAtom (fun _ a => ∃ name, a = .predicate name []) []

theorem IsPropositional.binary (connective : Connective) {left right : SurfaceFormula}
    (leftGood : IsPropositional left) (rightGood : IsPropositional right) :
    IsPropositional (.binary connective left right) where
  isQuantifierFree := by
    simp [Formula.isQuantifierFree, leftGood.isQuantifierFree, rightGood.isQuantifierFree]
  atoms := ⟨leftGood.atoms, rightGood.atoms⟩

/-- A proposition that says the same as a written formula, or the contrary with
`invert`. -/
structure Agrees (invert : Bool) (formula : SurfaceFormula) (proposition : Proposition) :
    Prop extends IsPropositional formula where
  holds_iff : ∀ ⦃D : Type⦄ (N : Structure String String D) (ρ : String → D),
    proposition.Holds (fun name => N.predicate name []) ↔ inverted invert (formula.Holds N ρ)

theorem Agrees.not {invert : Bool} (agrees : Agrees (!invert) formula proposition) :
    Agrees invert (.not formula) proposition where
  isQuantifierFree := agrees.isQuantifierFree
  atoms := agrees.atoms
  holds_iff _ N ρ := (agrees.holds_iff N ρ).trans (inverted_not invert _)

/-- A proposition under the negations that stand in front of it. -/
theorem Agrees.push (agrees : Agrees false formula proposition) (negated : Bool) :
    Agrees negated formula (if negated then .not proposition else proposition) where
  isQuantifierFree := agrees.isQuantifierFree
  atoms := agrees.atoms
  holds_iff _ N ρ := by
    have holds_iff := agrees.holds_iff N ρ
    cases negated with
    | false => exact holds_iff
    | true => exact not_congr holds_iff

theorem agrees_truth (value : Bool) : Agrees false (.truth value) (.truth value) :=
  ⟨⟨rfl, trivial⟩, fun _ _ _ => Iff.rfl⟩

theorem agrees_name (name : String) :
    Agrees false (.atom (.predicate name [])) (.atom name) :=
  ⟨⟨rfl, ⟨name, rfl⟩⟩, fun _ _ _ => Iff.rfl⟩

/-! ## Rows of operands -/

/-- A formula that says what a row of operands says, the last one first, with one
connective between any two of them. -/
structure SaysAll (connective : Connective) (formula : SurfaceFormula)
    (operands : List Proposition) : Prop extends IsPropositional formula where
  nonempty : operands ≠ []
  holds_iff : ∀ ⦃D : Type⦄ (N : Structure String String D) (ρ : String → D),
    formula.Holds N ρ ↔
      connective.HoldsAll (Proposition.Holds fun name => N.predicate name []) operands

/-- A formula and the row of operands that it is read as.  Where there is one operand
there is no connective, and the operand may be negated. -/
def IsRow (negated : Bool) (formula : SurfaceFormula) (operands : List Proposition) :
    Option Connective → Prop
  | none => ∃ proposition, operands = [proposition] ∧ Agrees negated formula proposition
  | some connective => SaysAll connective formula operands

section

variable {known other : Option Connective} {connective : Connective}
  {left right : SurfaceFormula} {operands leftOperands rightOperands : List Proposition}

/-- One operand is a row with any connective but `<=>`. -/
theorem IsRow.saysAll (row : IsRow false formula operands known)
    (same : known = none ∨ known = some connective) (notEquiv : connective ≠ .equiv) :
    SaysAll connective formula operands := by
  rcases same with rfl | rfl
  · obtain ⟨proposition, rfl, agrees⟩ := row
    refine ⟨agrees.toIsPropositional, List.cons_ne_nil _ _, fun D N ρ => ?_⟩
    refine (agrees.holds_iff N ρ).symm.trans ?_
    cases connective with
    | and | or | implies => simp [Connective.HoldsAll]
    | equiv => exact absurd rfl notEquiv
  · exact row

/-- Two rows with a connective between them.  What stands on the left of `=>` is one
operand, and so are both sides of `<=>`. -/
theorem IsRow.binary (leftRow : IsRow false left leftOperands known)
    (rightRow : IsRow false right rightOperands other)
    (leftSame : known = none ∨ known = some connective)
    (rightSame : other = none ∨ other = some connective)
    (leftSingle : connective = .implies ∨ connective = .equiv → known = none)
    (rightSingle : connective = .equiv → other = none) :
    SaysAll connective (.binary connective left right) (rightOperands ++ leftOperands) := by
  cases connective with
  | and =>
      have leftAll := leftRow.saysAll leftSame (by decide)
      have rightAll := rightRow.saysAll rightSame (by decide)
      refine ⟨leftAll.binary _ rightAll.toIsPropositional, by simp [leftAll.nonempty],
        fun D N ρ => ?_⟩
      simp only [Connective.HoldsAll, List.forall_mem_append]
      exact (and_congr (leftAll.holds_iff N ρ) (rightAll.holds_iff N ρ)).trans and_comm
  | or =>
      have leftAll := leftRow.saysAll leftSame (by decide)
      have rightAll := rightRow.saysAll rightSame (by decide)
      refine ⟨leftAll.binary _ rightAll.toIsPropositional, by simp [leftAll.nonempty],
        fun D N ρ => ?_⟩
      simp only [Connective.HoldsAll, List.mem_append, or_and_right, exists_or]
      exact (or_congr (leftAll.holds_iff N ρ) (rightAll.holds_iff N ρ)).trans or_comm
  | implies =>
      obtain rfl := leftSingle (.inl rfl)
      obtain ⟨antecedent, rfl, agrees⟩ := leftRow
      have rightAll := rightRow.saysAll rightSame (by decide)
      obtain ⟨consequent, antecedents, rfl⟩ := List.exists_cons_of_ne_nil rightAll.nonempty
      refine ⟨agrees.binary _ rightAll.toIsPropositional, List.cons_ne_nil _ _, fun D N ρ => ?_⟩
      refine (imp_congr (agrees.holds_iff N ρ).symm (rightAll.holds_iff N ρ)).trans ?_
      simp only [List.cons_append, Connective.HoldsAll, List.forall_mem_append,
        List.forall_mem_singleton]
      exact ⟨fun holds both => holds both.2 both.1, fun holds first others => holds ⟨others, first⟩⟩
  | equiv =>
      obtain rfl := leftSingle (.inr rfl)
      obtain rfl := rightSingle rfl
      obtain ⟨first, rfl, firstAgrees⟩ := leftRow
      obtain ⟨second, rfl, secondAgrees⟩ := rightRow
      exact ⟨firstAgrees.binary _ secondAgrees.toIsPropositional, List.cons_ne_nil _ _,
        fun D N ρ => iff_congr (firstAgrees.holds_iff N ρ).symm (secondAgrees.holds_iff N ρ).symm⟩

end

/-- The connectives of a phrase outside of parentheses. -/
def connectivesOf : Category → List Connective
  | .operand => []
  | .conjunction => [.and]
  | .disjunction => [.and, .or]
  | .implication => [.and, .or, .implies]
  | .formula => [.and, .or, .implies, .equiv]

/-- A level takes a row of operands, which a formula of some kind is read as. -/
structure TakesRow (category : Category) (level : Level) (formula : SurfaceFormula) (after : Level)
    (known : Option Connective) (operands : List Proposition) : Prop where
  row : IsRow level.negated formula operands known
  within : ∀ connective ∈ known, connective ∈ connectivesOf category
  same : ∀ connective ∈ known, level.connective = none ∨ level.connective = some connective
  operands_eq : after.settle.operands = operands ++ level.operands
  connective_eq : after.connective = known.or level.connective

/-- A level takes a formula as a row of operands. -/
def Takes (category : Category) (level : Level) (formula : SurfaceFormula) (after : Level) : Prop :=
  ∃ known operands, TakesRow category level formula after known operands

section

variable {category first second : Category}

theorem takes_push (noName : level.name = none) (agrees : Agrees false formula proposition) :
    Takes category level formula (level.push proposition) := by
  refine ⟨none, _, ⟨_, rfl, agrees.push level.negated⟩, nofun, nofun, ?_, rfl⟩
  rw [Level.settle_of_none (by rw [Level.push, noName]), Level.push]
  rfl

theorem takes_name {name : List Char}
    (agrees : Agrees false formula (.atom (String.ofList name.reverse))) :
    Takes category level formula { level with name := some name } := by
  refine ⟨none, _, ⟨_, rfl, agrees.push level.negated⟩, nofun, nofun, ?_, rfl⟩
  rw [Level.settle_of_some rfl, Level.push]
  rfl

/-- An operand under a negation. -/
theorem Takes.not (takes : Takes .operand { level with negated := !level.negated } formula after) :
    Takes .operand level (.not formula) after := by
  obtain ⟨known, operands, row, within, same, operands_eq, connective_eq⟩ := takes
  cases known with
  | some connective => cases within connective rfl
  | none =>
      obtain ⟨proposition, rfl, agrees⟩ := row
      exact ⟨none, _, ⟨proposition, rfl, agrees.not⟩, nofun, nofun, operands_eq, connective_eq⟩

/-- Two phrases with a connective between them. -/
theorem Takes.binary {connective : Connective} {left right : SurfaceFormula} {position : Nat}
    {middle rested added : Level} (notNegated : level.negated = false)
    (leftTakes : Takes first level left middle) (rests : middle.Rests rested)
    (isAdded : rested.addConnective connective position = .ok added)
    (rightTakes : Takes second added right after)
    (allowed : connective ∈ connectivesOf category)
    (leftAllowed : connective ∈ connectivesOf first → connective = .and ∨ connective = .or)
    (rightAllowed : connective ∈ connectivesOf second → connective ≠ .equiv) :
    Takes category level (.binary connective left right) after := by
  obtain ⟨known, leftOperands, leftRow⟩ := leftTakes
  obtain ⟨other, rightOperands, rightRow⟩ := rightTakes
  obtain ⟨rfl, addedNotNegated, same⟩ := Level.addConnective_eq_ok isAdded
  have settled : rested.settle = middle.settle ∧ rested.connective = middle.connective := by
    rcases rests with rfl | ⟨rfl, -⟩ <;> simp
  rw [settled.2, leftRow.connective_eq] at same
  have leftSame : known = none ∨ known = some connective := by
    cases known with
    | none => exact .inl rfl
    | some _ => simpa using same
  have levelSame : level.connective = none ∨ level.connective = some connective := by
    rcases leftSame with rfl | rfl
    · simpa using same
    · exact leftRow.same connective rfl
  have rightSame : other = none ∨ other = some connective := by
    cases other with
    | none => exact .inl rfl
    | some found => exact .inr ((rightRow.same found rfl).resolve_left nofun).symm
  have leftIs := leftRow.row
  have rightIs := rightRow.row
  rw [notNegated] at leftIs
  rw [show Level.negated _ = false from addedNotNegated] at rightIs
  refine ⟨some connective, rightOperands ++ leftOperands,
    leftIs.binary rightIs leftSame rightSame (fun single => ?_) (fun single => ?_), ?_, ?_, ?_, ?_⟩
  · refine leftSame.resolve_right fun isIt => ?_
    rcases leftAllowed (leftRow.within connective isIt) with rfl | rfl <;> simp at single
  · exact rightSame.resolve_right fun isIt => rightAllowed (rightRow.within connective isIt) single
  · rintro _ ⟨⟩
    exact allowed
  · rintro _ ⟨⟩
    exact levelSame
  · rw [rightRow.operands_eq, settled.1, leftRow.operands_eq, List.append_assoc]
  · rw [rightRow.connective_eq]
    rcases rightSame with rfl | rfl <;> rfl

end

/-! ## Words -/

section

variable {outer : List Level} {position : Nat} {goal : Proposition} {rest : List Char}

/-- A character of a word that is no truth constant is one of a name to both readers. -/
theorem isNameChar_of_word {c : Char} (isWord : isNameChar c = true)
    (notTruth : ¬(c = 'T' ∨ c = 'F')) : IsNameChar c := by
  refine ⟨isBlank_of_isNameChar isWord, fun mem => ?_⟩
  have others : specialChars.all fun c => !isNameChar c || c = 'T' || c = 'F' := by decide
  have isOther := List.all_eq_true.mp others c mem
  simp_all

/-- The characters of a word go on with a name that is being read. -/
theorem readLevels_wordChars {name read : List Char} (isName : ∀ c ∈ name, isNameChar c = true)
    (named : level.name = some read)
    (done : readLevels level outer position (name ++ rest) = .ok goal) :
    ∃ position, readLevels { level with name := some (name.reverse ++ read) } outer position rest =
      .ok goal := by
  induction name generalizing level position read with
  | nil =>
      have same : { level with name := some read } = level := by rw [← named]
      exact ⟨position, by simpa [same] using done⟩
  | cons c name ih =>
      obtain ⟨isStart, others⟩ := List.forall_mem_cons.mp isName
      by_cases isTruth : c = 'T' ∨ c = 'F'
      · rcases isTruth with rfl | rfl <;> simp [readLevels, named] at done
      · rw [List.cons_append, readLevels_nameChar (isNameChar_of_word isStart isTruth),
          named] at done
        obtain ⟨last, next⟩ := ih others rfl done
        exact ⟨last, by simpa using next⟩

/-- A word that does not begin with a truth constant is a name. -/
theorem readLevels_plainWord {first : Char} {name : List Char}
    (isName : ∀ c ∈ first :: name, isNameChar c = true) (noName : level.name = none)
    (notTruth : ¬(first = 'T' ∨ first = 'F'))
    (done : readLevels level outer position (first :: (name ++ rest)) = .ok goal) :
    ∃ after position, readLevels after outer position rest = .ok goal ∧
      after.balance = level.balance + 1 ∧
      Takes .operand level (.ofName (String.ofList (first :: name)) []) after := by
  obtain ⟨isStart, others⟩ := List.forall_mem_cons.mp isName
  rw [readLevels_nameChar (isNameChar_of_word isStart notTruth), noName] at done
  obtain ⟨last, next⟩ := readLevels_wordChars others rfl done
  refine ⟨_, last, next, (level.balance_name _).2 noName, takes_name ?_⟩
  have notConstant (value : Bool) : String.ofList (first :: name) ≠ truthSymbol value := by
    intro same
    have chars := congrArg String.toList same
    rw [String.toList_ofList] at chars
    cases value with
    | true => exact notTruth (.inl (List.cons.inj chars).1)
    | false => exact notTruth (.inr (List.cons.inj chars).1)
  rw [SurfaceFormula.ofName_eq_atom fun _ => notConstant]
  simpa using agrees_name (String.ofList (first :: name))

/-- A word is one operand or more, and it is one only if it is a truth constant or
a name to both readers. -/
theorem readLevels_word {level : Level} {position : Nat} {first : Char} {name : List Char}
    (isName : ∀ c ∈ first :: name, isNameChar c = true) (noName : level.name = none)
    (done : readLevels level outer position (first :: (name ++ rest)) = .ok goal) :
    ∃ after position, readLevels after outer position rest = .ok goal ∧
      level.balance + 1 ≤ after.balance ∧
      (after.balance = level.balance + 1 →
        Takes .operand level (.ofName (String.ofList (first :: name)) []) after) := by
  by_cases isTruth : first = 'T' ∨ first = 'F'
  · have pushed := level.balance_push noName (.truth (first = 'T'))
    have next : readLevels (level.push (.truth (first = 'T'))) outer (position + 1)
        (name ++ rest) = .ok goal := by
      rcases isTruth with rfl | rfl <;> simpa [readLevels, noName] using done
    cases name with
    | nil =>
        refine ⟨_, _, next, Int.le_of_eq pushed.symm, fun _ => takes_push noName ?_⟩
        rcases isTruth with rfl | rfl
        · exact agrees_truth true
        · exact agrees_truth false
    | cons second name =>
        -- What follows a truth constant directly is one more operand.
        have stillNone : (level.push (.truth (first = 'T'))).name = none := noName
        obtain ⟨after, last, done, more, -⟩ :=
          readLevels_word (List.forall_mem_cons.mp isName).2 stillNone next
        exact ⟨after, last, done, by omega, fun exact_ => by omega⟩
  · obtain ⟨after, last, next, balanced, takes⟩ :=
      readLevels_plainWord isName noName isTruth done
    exact ⟨after, last, next, Int.le_of_eq balanced.symm, fun _ => takes⟩

end

/-! ## Both readers at one place of a text -/

/-- The propositional reader, which makes `goal` of the text, and the tokens that are
left stand at the same place of a text. -/
structure Stands (goal : Proposition) (outer : List Level) (level : Level) (chars : List Char)
    (tokens : List Token) : Prop where
  reads : ∃ position, readLevels level outer position chars = .ok goal
  tokenizes : Tokenizes chars tokens

/-- Where a name is being read, it ends here. -/
def IsApart (level : Level) (chars : List Char) : Prop :=
  level.name = none ∨ EndsWord chars

/-- The next token after blanks, and what is left behind it. -/
structure Next (goal : Proposition) (outer : List Level) (level : Level) (chars : List Char)
    (token : Token) (rest : List Token) (rested : Level) (position : Nat) (left : List Char) :
    Prop where
  rests : level.Rests rested
  apart : IsApart level chars → IsApart rested (token.spelling ++ left)
  leads : token.Leads (token.spelling ++ left) left
  tokenizes : Tokenizes left rest
  reads : readLevels rested outer position (token.spelling ++ left) = .ok goal

section

variable {goal : Proposition} {outer : List Level} {level : Level} {chars : List Char}
  {token : Token} {rest : List Token}

/-- A blank settles the level. -/
theorem rests_of_readLevels {c : Char} {position : Nat} (blank : Text.isBlank c = true)
    (read : readLevels level outer position (c :: chars) = .ok goal) :
    level.Rests level.settle ∧ readLevels level.settle outer (position + 1) chars = .ok goal := by
  rw [readLevels_blank blank] at read
  split at read
  · cases read
  · rename_i ended
    obtain ⟨rfl, notNegated⟩ := Level.endName_eq_ok_iff.mp ended
    exact ⟨.inr ⟨rfl, notNegated⟩, read⟩

theorem Stands.next (stands : Stands goal outer level chars (token :: rest)) :
    ∃ rested position left, Next goal outer level chars token rest rested position left := by
  obtain ⟨⟨position, reads⟩, tokenizes⟩ := stands
  generalize isRow : token :: rest = tokens at tokenizes
  induction tokenizes generalizing level position with
  | nil => cases isRow
  | blank isBlank _ ih =>
      obtain ⟨settled, reads⟩ := rests_of_readLevels isBlank reads
      obtain ⟨rested, last, left, next⟩ := ih _ reads isRow
      refine ⟨rested, last, left, settled.trans next.rests, fun _ => .inl ?_, next.leads,
        next.tokenizes, next.reads⟩
      rw [next.rests.eq_of_none level.name_settle]
      exact level.name_settle
  | token leads tokenizes =>
      cases isRow
      obtain rfl := leads.spells
      exact ⟨level, position, _, .inl rfl, id, leads, tokenizes, reads⟩

/-- Where no token is left, the level ends. -/
theorem Stands.finish (stands : Stands goal [] level chars []) :
    ∃ position, level.finish position = .ok goal := by
  obtain ⟨⟨position, reads⟩, tokenizes⟩ := stands
  generalize isRow : [] = tokens at tokenizes
  induction tokenizes generalizing level position with
  | nil => exact ⟨position, reads⟩
  | blank isBlank _ ih =>
      obtain ⟨settled, reads⟩ := rests_of_readLevels isBlank reads
      obtain ⟨last, finished⟩ := ih _ reads isRow
      exact ⟨last, settled.finish finished⟩
  | token => cases isRow

/-- An opening parenthesis opens a level. -/
theorem Stands.openParen (stands : Stands goal outer level chars (.openParen :: rest)) :
    ∃ rested left, level.Rests rested ∧ rested.name = none ∧
      Stands goal (rested :: outer) .start left rest := by
  obtain ⟨rested, position, left, next⟩ := stands.next
  have reads := next.reads
  simp only [Token.spelling, List.singleton_append, readLevels] at reads
  split at reads
  · cases reads
  · exact ⟨rested, left, next.rests, ‹_›, ⟨_, reads⟩, next.tokenizes⟩

/-- A closing parenthesis ends a level, which becomes an operand of the level
around it. -/
theorem Stands.closeParen {parent : Level}
    (stands : Stands goal (parent :: outer) level chars (.closeParen :: rest)) :
    ∃ position formula left, level.finish position = .ok formula ∧
      Stands goal outer (parent.push formula) left rest := by
  obtain ⟨rested, position, left, next⟩ := stands.next
  have reads := next.reads
  simp only [Token.spelling, List.singleton_append, readLevels] at reads
  split at reads
  · cases reads
  · rename_i formula finished
    exact ⟨position, formula, left, next.rests.finish finished, ⟨_, reads⟩, next.tokenizes⟩

theorem Stands.negation (stands : Stands goal outer level chars (.negation :: rest)) :
    ∃ rested left, level.Rests rested ∧ rested.name = none ∧
      Stands goal outer { rested with negated := !rested.negated } left rest := by
  obtain ⟨rested, position, left, next⟩ := stands.next
  have reads := next.reads
  simp only [Token.spelling, List.singleton_append, readLevels] at reads
  split at reads
  · cases reads
  · exact ⟨rested, left, next.rests, ‹_›, ⟨_, reads⟩, next.tokenizes⟩

theorem Stands.connective {connective : Connective}
    (stands : Stands goal outer level chars (.connective connective :: rest)) :
    ∃ rested position after left, level.Rests rested ∧
      rested.addConnective connective position = .ok after ∧ Stands goal outer after left rest := by
  obtain ⟨rested, position, left, next⟩ := stands.next
  have reads := next.reads
  rw [Token.spelling, readLevels_connective] at reads
  split at reads
  · cases reads
  · exact ⟨rested, position, _, left, next.rests, ‹_›, ⟨_, reads⟩, next.tokenizes⟩

/-- No token begins with `>`. -/
theorem not_tokenizes_greater {tokens : List Token} : ¬Tokenizes ('>' :: chars) tokens := by
  intro tokenizes
  cases tokenizes with
  | blank isBlank => cases isBlank
  | token leads =>
      have read := Token.read_eq_ok_iff.mpr leads
      simp [Token.read, isNameChar] at read

/-- The propositional reader refuses a sign of equality. -/
theorem Stands.ne_sign (stands : Stands goal outer level chars (token :: rest)) :
    token ≠ .equal ∧ token ≠ .notEqual := by
  obtain ⟨rested, position, left, next⟩ := stands.next
  have reads := next.reads
  constructor
  · rintro rfl
    refine readLevels_equal_ne_ok (fun others isGreater => ?_) reads
    subst isGreater
    have longer := next.leads.isLongest (.connective .implies) trivial ⟨others, rfl⟩
    exact absurd longer (by decide)
  · rintro rfl
    simp only [Token.spelling, List.cons_append, List.nil_append, readLevels] at reads
    split at reads
    · cases reads
    · refine readLevels_equal_ne_ok (fun others isGreater => ?_) reads
      subst isGreater
      exact not_tokenizes_greater next.tokenizes

/-- A token that is a part of a name. -/
theorem Stands.part (stands : Stands goal outer level chars (token :: rest))
    (nonempty : token.spelling ≠ []) (isName : ∀ c ∈ token.spelling, IsNameChar c) :
    ∃ rested name left, level.Rests rested ∧
      Stands goal outer { rested with name := some name } left rest := by
  obtain ⟨rested, position, left, next⟩ := stands.next
  have reads := next.reads
  rw [readLevels_name nonempty isName] at reads
  exact ⟨rested, _, left, next.rests, ⟨_, reads⟩, next.tokenizes⟩

theorem Stands.comma (stands : Stands goal outer level chars (.comma :: rest)) :
    ∃ rested name left, level.Rests rested ∧
      Stands goal outer { rested with name := some name } left rest :=
  stands.part nofun (by simp [Token.spelling, IsNameChar, specialChars, Text.isBlank])

theorem Stands.quantifier {quantifier : Quantifier}
    (stands : Stands goal outer level chars (.quantifier quantifier :: rest)) :
    ∃ rested name left, level.Rests rested ∧
      Stands goal outer { rested with name := some name } left rest := by
  refine stands.part ?_ ?_ <;> cases quantifier <;>
    simp [Token.spelling, Quantifier.symbol, IsNameChar, specialChars, Text.isBlank]

/-- A word and a variable end where no character of a name follows. -/
theorem endsWord_of_leads {text : String} {written left : List Char}
    (leads : (Token.word text).Leads written left ∨ (Token.var text).Leads written left) :
    EndsWord left := by
  have dropped (run : List Char) : EndsWord (run.dropWhile isNameChar) := by
    intro c mem
    have notName := List.head?_dropWhile_not isNameChar run
    rw [Option.mem_def.mp mem] at notName
    simpa using notName
  rcases leads with leads | leads
  all_goals
    obtain ⟨c, others, rfl⟩ := leads.exists_cons
    have read := Token.read_eq_ok_iff.mpr leads
    unfold Token.read at read
    split at read <;> (try split at read) <;> cases read
    exact dropped _

/-- A variable is a part of a name, which ends with it. -/
theorem Stands.var {text : String} (stands : Stands goal outer level chars (.var text :: rest)) :
    ∃ rested name left, level.Rests rested ∧ EndsWord left ∧
      Stands goal outer { rested with name := some name } left rest := by
  obtain ⟨rested, position, left, next⟩ := stands.next
  have reads := next.reads
  have isStart : IsNameChar '?' := by unfold IsNameChar; decide
  rw [Token.spelling, List.cons_append, readLevels_nameChar isStart] at reads
  obtain ⟨last, reads⟩ := readLevels_wordChars next.leads.isProper.2 rfl reads
  exact ⟨rested, _, left, next.rests, endsWord_of_leads (.inr next.leads), ⟨last, reads⟩,
    next.tokenizes⟩

/-- A word adds to the balance, by one only if it is a truth constant or a name to
both readers. -/
theorem Stands.word {text : String} (stands : Stands goal outer level chars (.word text :: rest)) :
    ∃ after left, Stands goal outer after left rest ∧ level.balance ≤ after.balance ∧
      (IsApart level chars → level.balance + 1 ≤ after.balance ∧
        (level.name = none → after.balance = level.balance + 1 →
          Takes .operand level (.ofName text []) after)) := by
  obtain ⟨rested, position, left, next⟩ := stands.next
  have reads := next.reads
  have apart := next.apart
  have sameBalance := next.rests.balance
  obtain ⟨notEmpty, isName⟩ := next.leads.isProper
  obtain ⟨first, name, isText⟩ :=
    List.exists_cons_of_ne_nil (mt String.toList_eq_nil_iff.mp notEmpty)
  simp only [IsName, isText] at isName
  simp only [Token.spelling, isText, List.cons_append] at reads apart
  cases named : rested.name with
  | some read =>
      obtain ⟨last, done⟩ := @readLevels_wordChars rested outer position goal left (first :: name)
        read isName named reads
      have more := (rested.balance_name ((first :: name).reverse ++ read)).1
      refine ⟨_, left, ⟨⟨last, done⟩, next.tokenizes⟩, by omega, fun isApart => ?_⟩
      -- A word cannot go on with a name that ends here.
      rcases apart isApart with noName | ends
      · cases named.symm.trans noName
      · cases (isName first (List.mem_cons_self ..)).symm.trans (ends first rfl)
  | none =>
      obtain ⟨after, last, done, more, takes⟩ := readLevels_word isName named reads
      refine ⟨after, left, ⟨⟨last, done⟩, next.tokenizes⟩, by omega, fun _ => ⟨by omega, ?_⟩⟩
      intro noName balanced
      rw [next.rests.eq_of_none noName, ← isText, String.ofList_toList] at takes
      exact takes balanced

end

/-! ## Terms and arguments -/

mutual

/-- A term never lowers the balance. -/
theorem exists_stands_of_term {goal : Proposition} {tokens rest : List Token} {t : SurfaceTerm}
    (derives : DerivesTerm tokens t rest) {outer : List Level} {level : Level}
    {chars : List Char} (stands : Stands goal outer level chars tokens) :
    ∃ after left, Stands goal outer after left rest ∧ level.balance ≤ after.balance := by
  cases derives with
  | var =>
      obtain ⟨rested, name, left, rests, -, after⟩ := stands.var
      have same := rests.balance
      have more := (rested.balance_name name).1
      exact ⟨_, left, after, by omega⟩
  | app derivesArgs =>
      obtain ⟨after, left, standsAfter, more, -⟩ := stands.word
      rcases exists_stands_of_args derivesArgs standsAfter with
        ⟨-, rfl⟩ | ⟨last, left, standsLast, further⟩
      · exact ⟨after, left, standsAfter, more⟩
      · exact ⟨last, left, standsLast, by omega⟩

/-- Arguments in parentheses are one operand more. -/
theorem exists_stands_of_args {goal : Proposition} {tokens rest : List Token}
    {args : List SurfaceTerm} (derives : DerivesArgs tokens args rest) {outer : List Level}
    {level : Level} {chars : List Char} (stands : Stands goal outer level chars tokens) :
    (args = [] ∧ rest = tokens) ∨
      ∃ after left, Stands goal outer after left rest ∧ level.balance + 1 ≤ after.balance := by
  cases derives with
  | none => exact .inl ⟨rfl, rfl⟩
  | some derivesTerms =>
      obtain ⟨rested, left, rests, noName, inside⟩ := stands.openParen
      obtain ⟨after, left, standsAfter, more⟩ := exists_stands_of_terms derivesTerms noName inside
      have same := rests.balance
      exact .inr ⟨after, left, standsAfter, by omega⟩

theorem exists_stands_of_terms {goal : Proposition} {tokens rest : List Token}
    {args : List SurfaceTerm} (derives : DerivesTerms tokens args rest) {outer : List Level}
    {level parent : Level} {chars : List Char} (noName : parent.name = none)
    (stands : Stands goal (parent :: outer) level chars tokens) :
    ∃ after left, Stands goal outer after left rest ∧ parent.balance + 1 ≤ after.balance := by
  cases derives with
  | last derivesTerm =>
      obtain ⟨after, left, standsAfter, -⟩ := exists_stands_of_term derivesTerm stands
      obtain ⟨position, formula, left, finished, standsLast⟩ := standsAfter.closeParen
      exact ⟨_, left, standsLast, Int.le_of_eq (Level.balance_push noName formula).symm⟩
  | more derivesTerm derivesTerms =>
      obtain ⟨after, left, standsAfter, -⟩ := exists_stands_of_term derivesTerm stands
      obtain ⟨rested, name, left, -, standsNext⟩ := standsAfter.comma
      exact exists_stands_of_terms derivesTerms noName standsNext

end

/-! ## Operands and formulas -/

/-- What reading a phrase does to the level.  A phrase that adds no more than one to the
balance is taken as a row of operands. -/
structure ReadsPhrase (goal : Proposition) (outer : List Level) (level : Level)
    (category : Category) (formula : SurfaceFormula) (rest : List Token) (after : Level)
    (left : List Char) : Prop where
  stands : Stands goal outer after left rest
  more : level.balance + 1 ≤ after.balance
  takes : level.name = none → after.balance = level.balance + 1 →
    category = .operand ∨ level.negated = false → Takes category level formula after

section

variable {goal : Proposition} {outer : List Level} {level : Level} {chars left : List Char}
  {category first second : Category} {tokens rest : List Token}

/-- A phrase as a phrase of a looser kind. -/
theorem ReadsPhrase.loosen
    (reads : ReadsPhrase goal outer level first formula rest after left)
    (loose : connectivesOf first ⊆ connectivesOf category) (notOperand : category ≠ .operand) :
    ReadsPhrase goal outer level category formula rest after left := by
  refine ⟨reads.stands, reads.more, fun noName balanced kind => ?_⟩
  obtain ⟨known, operands, takes⟩ :=
    reads.takes noName balanced (.inr (kind.resolve_left notOperand))
  exact ⟨known, operands, { takes with within := fun c mem => loose (takes.within c mem) }⟩

/-- Two phrases with a connective between them. -/
theorem exists_readsPhrase_binary {connective : Connective} {f g : SurfaceFormula}
    {others : List Token}
    (leftReads : ∃ middle left,
      ReadsPhrase goal outer level first f (.connective connective :: others) middle left)
    (rightReads : ∀ {level chars}, IsApart level chars → Stands goal outer level chars others →
      ∃ after left, ReadsPhrase goal outer level second g rest after left)
    (notOperand : category ≠ .operand) (allowed : connective ∈ connectivesOf category)
    (leftAllowed : connective ∈ connectivesOf first → connective = .and ∨ connective = .or)
    (rightAllowed : connective ∈ connectivesOf second → connective ≠ .equiv) :
    ∃ after left,
      ReadsPhrase goal outer level category (.binary connective f g) rest after left := by
  obtain ⟨middle, _, leftPhrase⟩ := leftReads
  obtain ⟨rested, position, added, _, rests, isAdded, standsAdded⟩ := leftPhrase.stands.connective
  obtain ⟨noNameAdded, lowered⟩ := Level.balance_addConnective isAdded
  obtain ⟨after, left, rightPhrase⟩ := rightReads (.inl noNameAdded) standsAdded
  have sameBalance := rests.balance
  have leftMore := leftPhrase.more
  have rightMore := rightPhrase.more
  refine ⟨after, left, rightPhrase.stands, by omega, fun noName balanced kind => ?_⟩
  have notNegated := kind.resolve_left notOperand
  have addedNotNegated : added.negated = false := by
    obtain ⟨rfl, settled, -⟩ := Level.addConnective_eq_ok isAdded
    exact settled
  exact (leftPhrase.takes noName (by omega) (.inr notNegated)).binary notNegated rests isAdded
    (rightPhrase.takes noNameAdded (by omega) (.inr addedNotNegated)) allowed leftAllowed
    rightAllowed

/-- A name with its arguments, which are one operand more. -/
theorem exists_readsPhrase_name {name : String} {args : List SurfaceTerm}
    (apart : IsApart level chars) (stands : Stands goal outer level chars (.word name :: tokens))
    (derives : DerivesArgs tokens args rest) :
    ∃ after left,
      ReadsPhrase goal outer level .operand (.ofName name args) rest after left := by
  obtain ⟨named, left, standsNamed, -, ofWord⟩ := stands.word
  obtain ⟨more, takes⟩ := ofWord apart
  rcases exists_stands_of_args derives standsNamed with
    ⟨rfl, rfl⟩ | ⟨after, left, standsAfter, further⟩
  · exact ⟨named, left, standsNamed, more, fun noName balanced _ => takes noName balanced⟩
  · exact ⟨after, left, standsAfter, by omega, fun _ balanced => by omega⟩

/-- A formula that fills its level says what the level says. -/
theorem ReadsPhrase.agrees {position : Nat}
    (reads : ReadsPhrase goal outer .start .formula formula rest after left)
    (finished : after.finish position = .ok proposition) : Agrees false formula proposition := by
  have ends := Level.ends_of_finish finished
  have more := reads.more
  have bounded := ends.balance
  rw [Level.balance_start] at more
  obtain ⟨known, operands, takes⟩ := reads.takes rfl (by rw [Level.balance_start]; omega) (.inr rfl)
  have operands_eq : after.settle.operands = operands := by
    rw [takes.operands_eq]
    exact List.append_nil _
  have connective_eq : after.connective = known := by
    rw [takes.connective_eq]
    exact Option.or_none
  have row := takes.row
  cases known with
  | none =>
      obtain ⟨single, rfl, agrees⟩ := row
      cases operands_eq.symm.trans (ends.single connective_eq)
      exact agrees
  | some connective =>
      subst operands_eq
      exact ⟨row.toIsPropositional, fun D N ρ =>
        (ends.holds connective connective_eq _).trans (row.holds_iff N ρ).symm⟩

end

/-- Both readers read formulas side by side.  The induction is on the derivation. -/
theorem exists_readsPhrase {category : Category} {goal : Proposition} {outer : List Level}
    {level : Level} {chars : List Char} {tokens rest : List Token}
    (derives : Derives category tokens formula rest) (apart : IsApart level chars)
    (stands : Stands goal outer level chars tokens) :
    ∃ after left, ReadsPhrase goal outer level category formula rest after left := by
  induction derives generalizing outer level chars with
  | single _ ih | consequent _ ih | disjunct _ ih | conjunct _ ih =>
      obtain ⟨after, left, reads⟩ := ih apart stands
      exact ⟨after, left, reads.loosen (by decide) nofun⟩
  | equiv _ _ leftIh rightIh | implies _ _ leftIh rightIh | or _ _ leftIh rightIh
  | and _ _ leftIh rightIh =>
      exact exists_readsPhrase_binary (leftIh apart stands) rightIh nofun (by decide) (by decide)
        (by decide)
  | not _ ih =>
      obtain ⟨rested, left, rests, noName, standsBody⟩ := stands.negation
      have apartBody : IsApart { rested with negated := !rested.negated } left := .inl noName
      obtain ⟨after, left, inner⟩ := ih apartBody standsBody
      have sameBalance := rests.balance
      have negatedBalance := rested.balance_negated (!rested.negated)
      have innerMore := inner.more
      refine ⟨after, left, inner.stands, by omega, fun noName balanced _ => ?_⟩
      obtain rfl := rests.eq_of_none noName
      exact (inner.takes noName (by omega) (.inl rfl)).not
  | quantified _ _ ih =>
      obtain ⟨rested, name, left, rests, standsVar⟩ := stands.quantifier
      obtain ⟨restedVar, varName, left, restsVar, ends, standsBody⟩ := standsVar.var
      obtain ⟨after, left, inner⟩ := ih (.inr ends) standsBody
      have sameBalance := rests.balance
      have sameVar := restsVar.balance
      have nameMore := rested.balance_name name
      have varMore := (restedVar.balance_name varName).1
      have innerMore := inner.more
      refine ⟨after, left, inner.stands, by omega, fun noName balanced => ?_⟩
      -- A quantifier and its variable are an operand of their own.
      obtain rfl := rests.eq_of_none noName
      have started := nameMore.2 noName
      omega
  | parentheses _ ih =>
      obtain ⟨rested, left, rests, noName, standsInside⟩ := stands.openParen
      obtain ⟨last, left, inner⟩ := ih (.inl rfl) standsInside
      obtain ⟨position, proposition, left, finished, standsAfter⟩ := inner.stands.closeParen
      have pushed := Level.balance_push noName proposition
      have sameBalance := rests.balance
      refine ⟨_, left, standsAfter, by omega, fun levelNoName _ _ => ?_⟩
      obtain rfl := rests.eq_of_none levelNoName
      exact takes_push noName (inner.agrees finished)
  | equation derivesLeft | unequal derivesLeft =>
      obtain ⟨_, _, standsSign, -⟩ := exists_stands_of_term derivesLeft stands
      simpa using standsSign.ne_sign
  | constant value rest =>
      have reads := exists_readsPhrase_name apart stands (.none rest)
      cases value with
      | true => exact reads
      | false => exact reads
  | predicate derivesArgs notConstant =>
      rw [← SurfaceFormula.ofName_eq_atom notConstant]
      exact exists_readsPhrase_name apart stands derivesArgs

/-- What both readers make of a text says the same. -/
theorem agrees_of_parse {text : String} (firstOrder : SurfaceFormula.parse text = .ok formula)
    (propositional : Proposition.parse text = .ok proposition) :
    Agrees false formula proposition := by
  obtain ⟨tokens, tokenizes, derives⟩ := SurfaceFormula.derives_of_parse firstOrder
  have stands : Stands proposition [] .start text.toList tokens :=
    ⟨⟨0, propositional⟩, tokenizes⟩
  obtain ⟨after, left, reads⟩ := exists_readsPhrase derives (.inl rfl) stands
  obtain ⟨position, finished⟩ := reads.stands.finish
  exact reads.agrees finished

end Entailment.CommonTexts
