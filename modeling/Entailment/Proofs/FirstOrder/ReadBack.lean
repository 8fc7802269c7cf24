import Entailment.Proofs.FirstOrder.AcceptedTexts
import Entailment.Proofs.FirstOrder.SurfaceNames

/-!
# Which written formulas are read back

A formula is written with parentheses around every binary formula and behind every
negation.  A quantified formula has none, and a quantifier reaches as far to the right as
its parentheses allow.  So where a quantified formula is the left side of a connective,
the connective and its right side are read as a part of its body.

Every written formula is read, as the formula in which the quantifiers that a left side
begins with stand in front of the whole binary formula.  A formula is read back as itself
exactly if no left side is a quantified formula.
-/

namespace Entailment.FirstOrder

variable {rest : List Char} {more : List Token} {name : String} {args : List SurfaceTerm}

/-! ## The tokens of written formulas -/

/-- Write arguments in parentheses, and nothing for no arguments. -/
def parenthesizeTokens : List (List Token) → List Token
  | [] => []
  | first :: others =>
      .openParen :: (first ++ others.flatMap (.comma :: ·) ++ [.closeParen])

namespace SurfaceTerm

mutual

/-- The tokens of a term. -/
def tokens : SurfaceTerm → List Token
  | var name => [.var name]
  | app name args => .word name :: parenthesizeTokens (tokensOfArgs args)

/-- The tokens of some terms. -/
def tokensOfArgs : List SurfaceTerm → List (List Token)
  | [] => []
  | t :: ts => tokens t :: tokensOfArgs ts

end

theorem tokensOfArgs_eq (args : List SurfaceTerm) : tokensOfArgs args = args.map tokens := by
  induction args with
  | nil => rfl
  | cons t ts ih => simp [tokensOfArgs, ih]

end SurfaceTerm

/-- The tokens of an atom. -/
def SurfaceAtom.tokens : SurfaceAtom → List Token
  | predicate name args => .word name :: parenthesizeTokens (SurfaceTerm.tokensOfArgs args)
  | equation left right => left.tokens ++ .equal :: right.tokens

/-- The tokens of a formula. -/
def SurfaceFormula.tokens : SurfaceFormula → List Token
  | .truth value => [.word (truthSymbol value)]
  | .atom a => a.tokens
  | .not body => .negation :: .openParen :: (SurfaceFormula.tokens body ++ [.closeParen])
  | .binary connective left right =>
      .openParen :: (SurfaceFormula.tokens left ++ .connective connective ::
        (SurfaceFormula.tokens right ++ [.closeParen]))
  | .quantified quantifier name body =>
      .quantifier quantifier :: .var name :: SurfaceFormula.tokens body

/-! ## Cutting the text into tokens -/

/-- A text is cut into some tokens, whatever stands behind it. -/
def IsCutInto (text : List Char) (tokens : List Token) : Prop :=
  ∀ ⦃rest : List Char⦄ ⦃more : List Token⦄, EndsWord rest → Tokenizes rest more →
    Tokenizes (text ++ rest) (tokens ++ more)

theorem Tokenizes.of_read {c : Char} {left : List Char} {token : Token}
    (read : Token.read c rest = .ok (token, left)) (tokenizes : Tokenizes left more) :
    Tokenizes (c :: rest) (token :: more) :=
  .token (Token.read_eq_ok_iff.mp read) tokenizes

theorem EndsWord.takeWhile_append (isName : IsName name) (ends : EndsWord rest) :
    (name.toList ++ rest).takeWhile isNameChar = name.toList ∧
      (name.toList ++ rest).dropWhile isNameChar = rest := by
  rw [List.takeWhile_append_of_pos isName, List.dropWhile_append_of_pos isName]
  cases rest with
  | nil => simp
  | cons c rest => simp [ends c rfl]

theorem endsWord_cons {c : Char} (notName : isNameChar c = false) (rest : List Char) :
    EndsWord (c :: rest) := by
  rintro other ⟨⟩
  exact notName

/-- A name that can be written. -/
def IsReadableName (name : String) : Prop :=
  name ≠ "" ∧ IsName name

instance : DecidablePred IsReadableName := fun name =>
  decidable_of_iff (name ≠ "" ∧ name.toList.all isNameChar = true)
    (by simp [IsReadableName, IsName])

theorem isCutInto_word (readable : IsReadableName name) : IsCutInto name.toList [.word name] := by
  intro rest more ends tokenizes
  obtain ⟨nonempty, isName⟩ := readable
  obtain ⟨run, left⟩ := ends.takeWhile_append isName
  obtain ⟨c, others, chars⟩ : ∃ c others, name.toList = c :: others :=
    List.exists_cons_of_ne_nil (by simpa using nonempty)
  have isStart : isNameChar c = true := isName c (by simp [chars])
  have read := Token.read_nameChar isStart (others ++ rest)
  rw [← List.takeWhile_cons_of_pos isStart, ← List.dropWhile_cons_of_pos isStart,
    ← List.cons_append, ← chars, run, left, String.ofList_toList] at read
  rw [chars]
  exact .of_read read tokenizes

theorem isCutInto_variable (readable : IsReadableName name) :
    IsCutInto ('?' :: name.toList) [.var name] := by
  intro rest more ends tokenizes
  obtain ⟨nonempty, isName⟩ := readable
  obtain ⟨run, left⟩ := ends.takeWhile_append isName
  have read : Token.read '?' (name.toList ++ rest) = .ok (.var name, rest) := by
    simp only [Token.read, run, left]
    split
    · rename_i isEmpty
      exact absurd (String.toList_eq_nil_iff.mp isEmpty) nonempty
    · rw [String.ofList_toList]
  exact .of_read read tokenizes

theorem isCutInto_truth (value : Bool) :
    IsCutInto (truthSymbol value).toList [.word (truthSymbol value)] := by
  refine isCutInto_word ?_
  cases value with
  | true => exact ⟨by decide, by simp [IsName, truthSymbol, isNameChar]⟩
  | false => exact ⟨by decide, by simp [IsName, truthSymbol, isNameChar]⟩

theorem tokenizes_connective (connective : Connective) (tokenizes : Tokenizes rest more) :
    Tokenizes (connective.symbol.toList ++ ' ' :: rest) (.connective connective :: more) := by
  cases connective <;> exact .of_read rfl (.blank rfl tokenizes)

theorem tokenizes_quantifier (quantifier : Quantifier) (tokenizes : Tokenizes rest more) :
    Tokenizes (quantifier.symbol.toList ++ ' ' :: rest) (.quantifier quantifier :: more) := by
  cases quantifier <;> exact .of_read rfl (.blank rfl tokenizes)

/-! ### Terms and atoms -/

theorem toList_parenthesize_cons (first : String) (others : List String) :
    (parenthesize (first :: others)).toList =
      '(' :: (first.toList ++ others.flatMap (',' :: ·.toList) ++ [')']) := by
  have joined : (String.intercalate "," (first :: others)).toList =
      first.toList ++ others.flatMap (',' :: ·.toList) := by
    induction others generalizing first with
    | nil => simp
    | cons second others ih => simp [String.intercalate_cons_cons, ih]
  simp [parenthesize, joined]

/-- The terms behind the first one.  A comma or the closing parenthesis ends the term
before it. -/
theorem tokenizes_others {others : List SurfaceTerm}
    (each : ∀ t ∈ others, IsCutInto t.render.toList t.tokens) (tokenizes : Tokenizes rest more) :
    EndsWord (others.flatMap (',' :: ·.render.toList) ++ ')' :: rest) ∧
      Tokenizes (others.flatMap (',' :: ·.render.toList) ++ ')' :: rest)
        (others.flatMap (.comma :: ·.tokens) ++ .closeParen :: more) := by
  induction others with
  | nil => exact ⟨endsWord_cons rfl _, .of_read rfl tokenizes⟩
  | cons t others ih =>
      obtain ⟨isCut, othersCut⟩ := List.forall_mem_cons.mp each
      obtain ⟨ends, tokenizesOthers⟩ := ih othersCut
      simp only [List.flatMap_cons, List.cons_append, List.append_assoc]
      exact ⟨endsWord_cons rfl _, .of_read rfl (isCut ends tokenizesOthers)⟩

/-- The arguments behind a name, given what is known of each of them. -/
theorem isCutInto_arguments (each : ∀ t ∈ args, IsCutInto t.render.toList t.tokens) :
    IsCutInto (parenthesize (SurfaceTerm.renderArgs args)).toList
      (parenthesizeTokens (SurfaceTerm.tokensOfArgs args)) := by
  intro rest more ends tokenizes
  rw [SurfaceTerm.renderArgs_eq, SurfaceTerm.tokensOfArgs_eq]
  cases args with
  | nil => exact tokenizes
  | cons first others =>
      obtain ⟨isCut, othersCut⟩ := List.forall_mem_cons.mp each
      obtain ⟨endsFirst, tokenizesOthers⟩ := tokenizes_others othersCut tokenizes
      simp only [List.map_cons, toList_parenthesize_cons, parenthesizeTokens, List.flatMap_map,
        List.cons_append, List.append_assoc, List.nil_append]
      exact .of_read rfl (isCut endsFirst tokenizesOthers)

theorem endsWord_parenthesize (texts : List String) (ends : EndsWord rest) :
    EndsWord ((parenthesize texts).toList ++ rest) := by
  cases texts with
  | nil => exact ends
  | cons first others =>
      rw [toList_parenthesize_cons]
      exact endsWord_cons rfl _

/-- A name with its arguments. -/
theorem isCutInto_application (readable : IsReadableName name)
    (each : ∀ t ∈ args, IsCutInto t.render.toList t.tokens) :
    IsCutInto (name ++ parenthesize (SurfaceTerm.renderArgs args)).toList
      (.word name :: parenthesizeTokens (SurfaceTerm.tokensOfArgs args)) := by
  intro rest more ends tokenizes
  rw [String.toList_append, List.append_assoc]
  exact isCutInto_word readable (endsWord_parenthesize _ ends)
    (isCutInto_arguments each ends tokenizes)

theorem SurfaceTerm.isCutInto {t : SurfaceTerm} (readable : ∀ name ∈ t.names, IsReadableName name) :
    IsCutInto t.render.toList t.tokens := by
  induction t using SurfaceTerm.induction with
  | var name =>
      rw [SurfaceTerm.render, String.toList_append]
      exact isCutInto_variable (readable name (List.mem_singleton_self name))
  | app name args ih =>
      rw [SurfaceTerm.names_app, List.forall_mem_cons] at readable
      exact isCutInto_application readable.1 fun t mem => ih t mem fun other otherMem =>
        readable.2 other (List.mem_flatMap.mpr ⟨t, mem, otherMem⟩)

theorem SurfaceAtom.isCutInto {a : SurfaceAtom} (readable : ∀ name ∈ a.names, IsReadableName name) :
    IsCutInto a.render.toList a.tokens := by
  cases a with
  | predicate name args =>
      rw [SurfaceAtom.names, List.forall_mem_cons] at readable
      refine isCutInto_application readable.1 fun t mem => SurfaceTerm.isCutInto ?_
      exact fun other otherMem => readable.2 other (List.mem_flatMap.mpr ⟨t, mem, otherMem⟩)
  | equation left right =>
      intro rest more ends tokenizes
      have leftCut := SurfaceTerm.isCutInto fun name mem =>
        readable name (List.mem_append_left _ mem)
      have rightCut := SurfaceTerm.isCutInto fun name mem =>
        readable name (List.mem_append_right _ mem)
      have written : (SurfaceAtom.equation left right).render.toList ++ rest =
          left.render.toList ++ ' ' :: '=' :: ' ' :: (right.render.toList ++ rest) := by
        simp [SurfaceAtom.render]
      rw [written, SurfaceAtom.tokens, List.append_assoc]
      exact leftCut (endsWord_cons rfl _)
        (.blank rfl (.of_read rfl (.blank rfl (rightCut ends tokenizes))))

/-- The text of a formula is cut into the tokens of the formula. -/
theorem SurfaceFormula.isCutInto {f : SurfaceFormula}
    (readable : ∀ name ∈ f.names, IsReadableName name) : IsCutInto f.render.toList f.tokens := by
  induction f with
  | truth value => exact isCutInto_truth value
  | atom a => exact SurfaceAtom.isCutInto readable
  | not body ih =>
      intro rest more ends tokenizes
      have written : (SurfaceFormula.render (.not body)).toList ++ rest =
          '~' :: '(' :: ((SurfaceFormula.render body).toList ++ ')' :: rest) := by
        simp [SurfaceFormula.render]
      simp only [written, SurfaceFormula.tokens, List.cons_append, List.append_assoc,
        List.nil_append]
      exact .of_read rfl (.of_read rfl (ih readable (endsWord_cons rfl _) (.of_read rfl tokenizes)))
  | binary connective left right leftIh rightIh =>
      intro rest more ends tokenizes
      have leftCut := leftIh fun name mem => readable name (List.mem_append_left _ mem)
      have rightCut := rightIh fun name mem => readable name (List.mem_append_right _ mem)
      have written : (SurfaceFormula.render (.binary connective left right)).toList ++ rest =
          '(' :: ((SurfaceFormula.render left).toList ++ ' ' :: (connective.symbol.toList ++
            ' ' :: ((SurfaceFormula.render right).toList ++ ')' :: rest))) := by
        simp [SurfaceFormula.render]
      simp only [written, SurfaceFormula.tokens, List.cons_append, List.append_assoc,
        List.nil_append]
      have closed : Tokenizes (')' :: rest) (.closeParen :: more) := .of_read rfl tokenizes
      exact .of_read rfl (leftCut (endsWord_cons rfl _) (.blank rfl
        (tokenizes_connective connective (rightCut (endsWord_cons rfl _) closed))))
  | quantified quantifier name body ih =>
      intro rest more ends tokenizes
      obtain ⟨readableName, readableBody⟩ := List.forall_mem_cons.mp readable
      have written : (SurfaceFormula.render (.quantified quantifier name body)).toList ++ rest =
          quantifier.symbol.toList ++ ' ' :: ('?' :: name.toList ++
            ' ' :: ((SurfaceFormula.render body).toList ++ rest)) := by
        simp [SurfaceFormula.render]
      rw [written]
      exact tokenizes_quantifier quantifier (isCutInto_variable readableName (endsWord_cons rfl _)
        (.blank rfl (ih readableBody ends tokenizes)))

/-! ## What the tokens derive -/

namespace SurfaceFormula

/-- What a formula is read as where the text goes on behind it: `goesOn` makes the whole
of the part up to where the text went on.  Quantifiers in front of that part stay in
front of the whole. -/
def readWith (goesOn : SurfaceFormula → SurfaceFormula) : SurfaceFormula → SurfaceFormula
  | .truth value => goesOn (.truth value)
  | .atom a => goesOn (.atom a)
  | .not body => goesOn (.not (readWith id body))
  | .binary connective left right =>
      goesOn (readWith (fun read => .binary connective read (readWith id right)) left)
  | .quantified quantifier name body => .quantified quantifier name (readWith goesOn body)

/-- What the text of a formula is read as. -/
def reread (f : SurfaceFormula) : SurfaceFormula := readWith id f

end SurfaceFormula

theorem derivesArgs_tokens (each : ∀ t ∈ args, ∀ rest, DerivesTerm (t.tokens ++ rest) t rest)
    (rest : List Token) :
    DerivesArgs (parenthesizeTokens (SurfaceTerm.tokensOfArgs args) ++ rest) args rest := by
  rw [SurfaceTerm.tokensOfArgs_eq]
  cases args with
  | nil => exact .none rest
  | cons first others =>
      have terms : DerivesTerms (first.tokens ++ (others.flatMap (.comma :: ·.tokens) ++
          .closeParen :: rest)) (first :: others) rest := by
        induction others generalizing first with
        | nil => exact .last (each first (by simp) _)
        | cons second others ih =>
            have next := ih second fun t mem => each t (List.mem_cons_of_mem _ mem)
            simp only [List.flatMap_cons, List.cons_append, List.append_assoc]
            exact .more (each first (by simp) _) next
      simp only [List.map_cons, parenthesizeTokens, List.flatMap_map, List.cons_append,
        List.append_assoc, List.nil_append]
      exact .some terms

theorem SurfaceTerm.derives_tokens (t : SurfaceTerm) (rest : List Token) :
    DerivesTerm (t.tokens ++ rest) t rest := by
  induction t using SurfaceTerm.induction generalizing rest with
  | var name => exact .var name rest
  | app name args ih => exact .app (derivesArgs_tokens ih rest)

theorem SurfaceAtom.derives_tokens {a : SurfaceAtom}
    (notConstant : ∀ value, a ≠ .predicate (truthSymbol value) []) (rest : List Token) :
    Derives .operand (a.tokens ++ rest) (.atom a) rest := by
  cases a with
  | predicate name args =>
      refine .predicate (derivesArgs_tokens (fun t _ => t.derives_tokens) rest) ?_
      rintro rfl value rfl
      exact notConstant value rfl
  | equation left right =>
      rw [SurfaceAtom.tokens, List.append_assoc]
      exact .equation (left.derives_tokens _) (right.derives_tokens rest)

section

variable {tokens others rest : List Token} {f left right : SurfaceFormula}

theorem Derives.formula_of_operand (derives : Derives .operand tokens f rest) :
    Derives .formula tokens f rest :=
  .single (.consequent (.disjunct (.conjunct derives)))

/-- Two operands with a connective between them, whichever it is. -/
theorem Derives.formula_of_operands {connective : Connective}
    (derivesLeft : Derives .operand tokens left (.connective connective :: others))
    (derivesRight : Derives .operand others right rest) :
    Derives .formula tokens (.binary connective left right) rest := by
  cases connective with
  | and => exact .single (.consequent (.disjunct (.and (.conjunct derivesLeft) derivesRight)))
  | or =>
      exact .single (.consequent (.or (.disjunct (.conjunct derivesLeft)) (.conjunct derivesRight)))
  | implies =>
      exact .single (.implies (.disjunct (.conjunct derivesLeft))
        (.consequent (.disjunct (.conjunct derivesRight))))
  | equiv =>
      exact .equiv (.consequent (.disjunct (.conjunct derivesLeft)))
        (.consequent (.disjunct (.conjunct derivesRight)))

end

namespace SurfaceFormula

variable {f : SurfaceFormula}

/-- What the tokens of a formula derive: at the end of a text or of a parenthesis what
the formula is read as, and before a connective and its right side what the formula is
read as where the text goes on. -/
structure DerivesRead (f : SurfaceFormula) : Prop where
  atEnd : ∀ {rest}, EndsFormula rest → Derives .operand (tokens f ++ rest) (reread f) rest
  before : ∀ {connective others right rest}, Derives .operand others right rest →
    EndsFormula rest → Derives .formula (tokens f ++ .connective connective :: others)
      (readWith (fun read => .binary connective read right) f) rest

/-- A formula that ends with its last token, whatever follows. -/
theorem DerivesRead.of_operand
    (derives : ∀ rest, Derives .operand (tokens f ++ rest) (reread f) rest)
    (ends : ∀ goesOn, readWith goesOn f = goesOn (reread f)) : DerivesRead f where
  atEnd _ := derives _
  before derivesRight _ := by
    rw [ends]
    exact .formula_of_operands (derives _) derivesRight

theorem derivesRead (notConstant : ∀ value, .predicate (truthSymbol value) [] ∉ f.atoms) :
    DerivesRead f := by
  induction f with
  | truth value => exact .of_operand (.constant value) fun _ => rfl
  | atom a =>
      refine .of_operand (SurfaceAtom.derives_tokens fun value isConstant => ?_) fun _ => rfl
      exact notConstant value (by simp [Formula.atoms, isConstant])
  | not body ih =>
      refine .of_operand (fun rest => ?_) fun _ => rfl
      have inside := (ih notConstant).atEnd (endsFormula_closeParen rest)
      simp only [tokens, List.cons_append, List.append_assoc, List.nil_append]
      exact .not (.parentheses inside.formula_of_operand)
  | binary connective left right leftIh rightIh =>
      refine .of_operand (fun rest => ?_) fun _ => rfl
      have readsLeft := leftIh fun value mem => notConstant value (List.mem_append_left _ mem)
      have readsRight := rightIh fun value mem => notConstant value (List.mem_append_right _ mem)
      have ends := endsFormula_closeParen rest
      simp only [tokens, List.cons_append, List.append_assoc, List.nil_append]
      exact .parentheses (readsLeft.before (readsRight.atEnd ends) ends)
  | quantified quantifier name body ih =>
      have reads := ih notConstant
      exact {
        atEnd := fun ends => .quantified (reads.atEnd ends).formula_of_operand ends
        before := fun derivesRight ends =>
          (Derives.quantified (reads.before derivesRight ends) ends).formula_of_operand }

/-- Every written formula is read, as itself or with quantifiers moved. -/
theorem parse_render (readable : ∀ name ∈ names f, IsReadableName name)
    (notConstant : ∀ value, .predicate (truthSymbol value) [] ∉ f.atoms) :
    parse (render f) = .ok (reread f) := by
  have atEnd : EndsWord [] := by simp [EndsWord]
  have tokenizes := isCutInto readable atEnd .nil
  have derives : Derives .operand (tokens f ++ []) (reread f) [] :=
    (derivesRead notConstant).atEnd nofun
  obtain ⟨lexemes, scanned, same⟩ := Lexeme.scan_of_tokenizes tokenizes 0
  rw [List.append_nil] at scanned
  rw [parse, scanned]
  refine (ofLexemes_eq_ok_iff ..).mpr ?_
  rw [same]
  exact derives.formula_of_operand

/-! ## Which formulas are read back -/

/-- The formulas inside a formula, the formula itself included. -/
def subformulas : SurfaceFormula → List SurfaceFormula
  | .truth value => [.truth value]
  | .atom a => [.atom a]
  | .not body => .not body :: subformulas body
  | .binary connective left right =>
      .binary connective left right :: (subformulas left ++ subformulas right)
  | .quantified quantifier name body =>
      .quantified quantifier name body :: subformulas body

/-- No connective inside a formula has a quantified formula as its left side. -/
def HasPlainLeftSides (f : SurfaceFormula) : Prop :=
  ∀ connective quantifier name body right,
    .binary connective (.quantified quantifier name body) right ∉ subformulas f

@[simp]
theorem hasPlainLeftSides_truth {value : Bool} : HasPlainLeftSides (.truth value) := by
  simp [HasPlainLeftSides, subformulas]

@[simp]
theorem hasPlainLeftSides_atom {a : SurfaceAtom} : HasPlainLeftSides (.atom a) := by
  simp [HasPlainLeftSides, subformulas]

@[simp]
theorem hasPlainLeftSides_not {body : SurfaceFormula} :
    HasPlainLeftSides (.not body) ↔ HasPlainLeftSides body := by
  simp [HasPlainLeftSides, subformulas]

@[simp]
theorem hasPlainLeftSides_quantified {quantifier : Quantifier} {name : String}
    {body : SurfaceFormula} :
    HasPlainLeftSides (.quantified quantifier name body) ↔ HasPlainLeftSides body := by
  simp [HasPlainLeftSides, subformulas]

@[simp]
theorem hasPlainLeftSides_binary {connective : Connective} {left right : SurfaceFormula} :
    HasPlainLeftSides (.binary connective left right) ↔
      (∀ quantifier name body, left ≠ .quantified quantifier name body) ∧
        HasPlainLeftSides left ∧ HasPlainLeftSides right := by
  simp only [HasPlainLeftSides, subformulas, List.mem_cons, List.mem_append, not_or]
  constructor
  · intro plain
    refine ⟨fun quantifier name body isQuantified => ?_, fun _ _ _ _ _ => (plain ..).2.1,
      fun _ _ _ _ _ => (plain ..).2.2⟩
    exact (plain connective quantifier name body right).1 (isQuantified ▸ rfl)
  · rintro ⟨plain, plainLeft, plainRight⟩ other quantifier name body last
    refine ⟨fun same => ?_, plainLeft _ _ _ _ _, plainRight _ _ _ _ _⟩
    cases same
    exact plain quantifier name body rfl

theorem reread_eq_self_iff : reread f = f ↔ HasPlainLeftSides f := by
  induction f with
  | truth value => simp [reread, readWith]
  | atom a => simp [reread, readWith]
  | not body ih =>
      rw [hasPlainLeftSides_not, ← ih]
      simp [reread, readWith]
  | binary connective left right leftIh rightIh =>
      rw [hasPlainLeftSides_binary, ← leftIh, ← rightIh]
      -- A quantified left side gives a quantified formula, and any other is kept apart.
      cases left <;> simp [reread, readWith]
  | quantified quantifier name body ih =>
      rw [hasPlainLeftSides_quantified, ← ih]
      simp [reread, readWith]

/-- A formula with names that can be written, and without predicates that look like truth
constants, is read back as itself exactly if no connective inside it has a quantified
formula as its left side. -/
theorem parse_render_eq_self_iff {f : SurfaceFormula}
    (readable : ∀ name ∈ names f, IsReadableName name)
    (notConstant : ∀ value, .predicate (truthSymbol value) [] ∉ f.atoms) :
    parse (render f) = .ok f ↔ HasPlainLeftSides f := by
  rw [parse_render readable notConstant, Except.ok.injEq, reread_eq_self_iff]

/-- A quantified right side is read back, and a quantified left side is not. -/
theorem parse_render_eq_self_iff_sides :
    let p : SurfaceFormula := .atom (.predicate "p" [.var "x"])
    let all : SurfaceFormula := .quantified .universal "x" (.atom (.predicate "T" [.var "x"]))
    let onRight : SurfaceFormula := .binary .and p all
    let onLeft : SurfaceFormula := .binary .and all p
    (∀ name ∈ names onRight, IsReadableName name) ∧ (∀ name ∈ names onLeft, IsReadableName name) ∧
      (∀ value, .predicate (truthSymbol value) [] ∉ onRight.atoms) ∧
      (∀ value, .predicate (truthSymbol value) [] ∉ onLeft.atoms) ∧
      render onRight = "(p(?x) ^ !A ?x T(?x))" ∧ parse "(p(?x) ^ !A ?x T(?x))" = .ok onRight ∧
      render onLeft = "(!A ?x T(?x) ^ p(?x))" ∧ parse "(!A ?x T(?x) ^ p(?x))" ≠ .ok onLeft := by
  intro p all onRight onLeft
  have readableRight : ∀ name ∈ names onRight, IsReadableName name := by decide
  have readableLeft : ∀ name ∈ names onLeft, IsReadableName name := by decide
  have plainRight : ∀ value, .predicate (truthSymbol value) [] ∉ onRight.atoms := by
    simp [onRight, p, all, Formula.atoms]
  have plainLeft : ∀ value, .predicate (truthSymbol value) [] ∉ onLeft.atoms := by
    simp [onLeft, p, all, Formula.atoms]
  refine ⟨readableRight, readableLeft, plainRight, plainLeft, rfl, ?_, rfl, fun same => ?_⟩
  · exact (parse_render_eq_self_iff readableRight plainRight).mpr (by simp [onRight, p, all])
  · have plain := (parse_render_eq_self_iff readableLeft plainLeft).mp same
    simp [onLeft, all] at plain

end SurfaceFormula

end Entailment.FirstOrder
