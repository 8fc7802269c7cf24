import Entailment.Proofs.FirstOrder.Grammar

/-!
# Accepted texts

A text is cut into tokens by maximal munch: blanks are skipped, and elsewhere the
token with the longest spelling that the text goes on with is taken.  The spellings
are those of the symbols, a name for a word, and a question mark with a name for a
variable.

With the grammar of token rows this says which texts are read as formulas, and as
which formula, without a reader.
-/

namespace Entailment.FirstOrder

variable {c : Char} {rest left text : List Char} {token : Token}

/-! ## Spellings -/

/-- A text made of the characters of names. -/
def IsName (text : String) : Prop :=
  ∀ c ∈ text.toList, isNameChar c = true

theorem isBlank_of_isNameChar {c : Char} (isName : isNameChar c = true) :
    Text.isBlank c = false := by
  have bounds : 48 ≤ c.toNat ∧ c.toNat ≤ 122 := by
    simp only [isNameChar, Bool.or_eq_true, Bool.and_eq_true, decide_eq_true_eq, beq_iff_eq,
      Char.le_def, UInt32.le_iff_toNat_le] at isName
    rcases isName with ((range | range) | range) | rfl
    · exact ⟨Nat.le_trans (by decide) range.1, Nat.le_trans range.2 (by decide)⟩
    · exact ⟨Nat.le_trans (by decide) range.1, Nat.le_trans range.2 (by decide)⟩
    · exact ⟨Nat.le_trans (by decide) range.1, Nat.le_trans range.2 (by decide)⟩
    · decide
  simp only [Text.isBlank, Bool.or_eq_false_iff, Bool.and_eq_false_iff, decide_eq_false_iff_not,
    beq_eq_false_iff_ne]
  omega

/-- How a token is written. -/
def Token.spelling : Token → List Char
  | .openParen => ['(']
  | .closeParen => [')']
  | .comma => [',']
  | .negation => ['~']
  | .connective sign => sign.symbol.toList
  | .equal => ['=']
  | .notEqual => ['~', '=']
  | .quantifier sign => sign.symbol.toList
  | .var text => '?' :: text.toList
  | .word text => text.toList

/-- A token that can be written: its text, if it has one, is a name of one
character at least. -/
def Token.IsProper : Token → Prop
  | .var text => text ≠ "" ∧ IsName text
  | .word text => text ≠ "" ∧ IsName text
  | _ => True

/-- A text goes on with a token, and no token with a longer spelling would do. -/
structure Token.Leads (token : Token) (text rest : List Char) : Prop where
  isProper : token.IsProper
  spells : text = token.spelling ++ rest
  isLongest : ∀ other : Token, other.IsProper → other.spelling <+: text →
    other.spelling.length ≤ token.spelling.length

/-- What may stand behind a name. -/
def EndsWord (rest : List Char) : Prop :=
  ∀ c ∈ rest.head?, isNameChar c = false

/-- The tokens of a text. -/
inductive Tokenizes : List Char → List Token → Prop
  | nil : Tokenizes [] []
  | blank {c : Char} {rest : List Char} {tokens : List Token} (isBlank : Text.isBlank c = true)
      (tokenizes : Tokenizes rest tokens) : Tokenizes (c :: rest) tokens
  | token {token : Token} {text rest : List Char} {tokens : List Token}
      (leads : token.Leads text rest) (tokenizes : Tokenizes rest tokens) :
      Tokenizes text (token :: tokens)

/-! ## Reading one token -/

theorem IsName.of_takeWhile (text : List Char) :
    IsName (String.ofList (text.takeWhile isNameChar)) := by
  intro c mem
  rw [String.toList_ofList] at mem
  exact List.all_eq_true.mp List.all_takeWhile c mem

theorem Token.read_nameChar (isStart : isNameChar c = true) (rest : List Char) :
    Token.read c rest = .ok (.word (String.ofList (c :: rest.takeWhile isNameChar)),
      rest.dropWhile isNameChar) := by
  unfold Token.read
  split <;> first | cases isStart | rw [if_pos isStart]

/-- The token that is read is written at the beginning of the text. -/
theorem Token.spells_of_read (done : Token.read c rest = .ok (token, left)) :
    token.IsProper ∧ c :: rest = token.spelling ++ left := by
  unfold Token.read at done
  split at done <;> (try split at done) <;> cases done
  all_goals try exact ⟨trivial, rfl⟩
  · rename_i notEmpty
    refine ⟨⟨?_, .of_takeWhile _⟩, ?_⟩
    · simpa [String.ofList_eq_empty_iff] using notEmpty
    · simp [Token.spelling]
  · rename_i isStart
    refine ⟨⟨by simp, fun other mem => ?_⟩, by simp [Token.spelling]⟩
    rw [String.toList_ofList] at mem
    rcases List.mem_cons.mp mem with rfl | mem
    · exact isStart
    · exact List.all_eq_true.mp List.all_takeWhile other mem

/-- A name at the beginning of a text is the whole run of name characters there, or
the run is longer. -/
theorem name_or_longer {name : String} (isName : IsName name) (left : List Char) :
    let run := (name.toList ++ left).takeWhile isNameChar
    run = name.toList ∧ (name.toList ++ left).dropWhile isNameChar = left ∨
      name.toList.length < run.length := by
  intro run
  have isRun : run = name.toList ++ left.takeWhile isNameChar :=
    List.takeWhile_append_of_pos isName
  rw [List.dropWhile_append_of_pos isName]
  cases left with
  | nil => exact .inl ⟨isRun.trans (List.append_nil _), rfl⟩
  | cons c left =>
      by_cases goesOn : isNameChar c = true
      · right
        rw [isRun, List.takeWhile_cons_of_pos goesOn]
        simp
      · left
        rw [isRun, List.takeWhile_cons_of_neg goesOn, List.dropWhile_cons_of_neg goesOn]
        exact ⟨List.append_nil _, rfl⟩

/-- A token that is written at the beginning of the text is the one that is read, or
a longer one is. -/
theorem Token.read_of_spells (isProper : token.IsProper)
    (spells : c :: rest = token.spelling ++ left) :
    Token.read c rest = .ok (token, left) ∨
      ∃ longer after, Token.read c rest = .ok (longer, after) ∧
        token.spelling.length < longer.spelling.length := by
  cases token with
  | openParen | closeParen | comma | notEqual =>
      cases spells
      exact .inl rfl
  | connective sign =>
      left
      cases sign <;> (cases spells; rfl)
  | quantifier sign =>
      left
      cases sign <;> (cases spells; rfl)
  | negation =>
      obtain ⟨rfl, rfl⟩ := List.cons.inj spells
      by_cases doubled : ∃ after, rest = '=' :: after
      · obtain ⟨after, rfl⟩ := doubled
        exact .inr ⟨.notEqual, after, rfl, by decide⟩
      · left
        have single : ∀ after, rest = '=' :: after → False :=
          fun after isDoubled => doubled ⟨after, isDoubled⟩
        simp [Token.read]
  | equal =>
      obtain ⟨rfl, rfl⟩ := List.cons.inj spells
      by_cases doubled : ∃ after, rest = '>' :: after
      · obtain ⟨after, rfl⟩ := doubled
        exact .inr ⟨.connective .implies, after, rfl, by decide⟩
      · left
        have single : ∀ after, rest = '>' :: after → False :=
          fun after isDoubled => doubled ⟨after, isDoubled⟩
        simp [Token.read]
  | var name =>
      obtain ⟨notEmpty, isName⟩ := isProper
      obtain ⟨rfl, rfl⟩ := List.cons.inj spells
      have read : Token.read '?' (name.toList ++ left) =
          .ok (.var (String.ofList ((name.toList ++ left).takeWhile isNameChar)),
            (name.toList ++ left).dropWhile isNameChar) := by
        simp only [Token.read]
        split
        · rename_i noRun
          rw [List.takeWhile_append_of_pos isName] at noRun
          exact absurd (List.append_eq_nil_iff.mp noRun).1 (by simpa using notEmpty)
        · rfl
      rcases name_or_longer isName left with ⟨sameRun, sameLeft⟩ | longer
      · rw [sameRun, sameLeft, String.ofList_toList] at read
        exact .inl read
      · refine .inr ⟨_, _, read, ?_⟩
        simpa [Token.spelling] using longer
  | word name =>
      obtain ⟨notEmpty, isName⟩ := isProper
      have isStart : isNameChar c = true := by
        cases chars : name.toList with
        | nil => exact absurd (String.toList_eq_nil_iff.mp chars) notEmpty
        | cons first others =>
            simp only [Token.spelling, chars, List.cons_append] at spells
            rw [(List.cons.inj spells).1]
            exact isName first (by simp [chars])
      have read := Token.read_nameChar isStart rest
      rw [← List.takeWhile_cons_of_pos isStart, ← List.dropWhile_cons_of_pos isStart, spells]
        at read
      rcases name_or_longer isName left with ⟨sameRun, sameLeft⟩ | longer
      · rw [Token.spelling, sameRun, sameLeft, String.ofList_toList] at read
        exact .inl read
      · refine .inr ⟨_, _, read, ?_⟩
        simpa [Token.spelling] using longer

/-- The token that is read is the one with the longest spelling. -/
theorem Token.read_eq_ok_iff :
    Token.read c rest = .ok (token, left) ↔ token.Leads (c :: rest) left := by
  constructor
  · intro done
    obtain ⟨isProper, spells⟩ := Token.spells_of_read done
    refine ⟨isProper, spells, ?_⟩
    rintro other otherProper ⟨after, otherSpells⟩
    rcases Token.read_of_spells otherProper otherSpells.symm with same | ⟨longer, _, same, isLonger⟩
    · obtain ⟨rfl, -⟩ := Prod.mk.inj (Except.ok.inj (done.symm.trans same))
      exact Nat.le_refl _
    · obtain ⟨rfl, -⟩ := Prod.mk.inj (Except.ok.inj (done.symm.trans same))
      exact Nat.le_of_lt isLonger
  · intro leads
    rcases Token.read_of_spells leads.isProper leads.spells with
      same | ⟨longer, after, done, isLonger⟩
    · exact same
    · obtain ⟨longerProper, spells⟩ := Token.spells_of_read done
      have noLonger := leads.isLongest longer longerProper ⟨after, spells.symm⟩
      exact absurd isLonger (Nat.not_lt.mpr noLonger)

/-! ## Reading all tokens -/

theorem Token.Leads.exists_cons (leads : token.Leads text rest) :
    ∃ c others, text = c :: others := by
  obtain ⟨isProper, rfl, -⟩ := leads
  suffices notEmpty : token.spelling ≠ [] by
    obtain ⟨c, others, spells⟩ := List.exists_cons_of_ne_nil notEmpty
    exact ⟨c, others ++ rest, by rw [spells, List.cons_append]⟩
  cases token with
  | connective sign => cases sign <;> decide
  | quantifier sign => cases sign <;> decide
  | word name => exact fun isEmpty => isProper.1 (String.toList_eq_nil_iff.mp isEmpty)
  | _ => exact List.cons_ne_nil _ _

/-- A blank starts no token. -/
theorem Token.not_isBlank_of_read (done : Token.read c rest = .ok (token, left)) :
    Text.isBlank c = false := by
  unfold Token.read at done
  split at done
  all_goals try rfl
  split at done
  · rename_i isStart
    exact isBlank_of_isNameChar isStart
  · cases done

/-- What is scanned are the tokens of the text. -/
theorem Lexeme.tokenizes_of_scan {position : Nat} {lexemes : List Lexeme}
    (done : Lexeme.scan position text = .ok lexemes) : Tokenizes text (tokensOf lexemes) := by
  fun_induction Lexeme.scan position text generalizing lexemes with
  | case1 =>
      cases done
      exact .nil
  | case2 position c rest isBlank ih => exact .blank isBlank (ih done)
  | case3 => cases done
  | case4 => cases done
  | case5 position c rest notBlank token left read shorter others scanned ih =>
      cases done
      exact .token (Token.read_eq_ok_iff.mp read) (ih scanned)

/-- A text that has tokens is scanned. -/
theorem Lexeme.scan_of_tokenizes {tokens : List Token} (tokenizes : Tokenizes text tokens)
    (position : Nat) :
    ∃ lexemes, Lexeme.scan position text = .ok lexemes ∧ tokensOf lexemes = tokens := by
  induction tokenizes generalizing position with
  | nil => exact ⟨[], by simp [Lexeme.scan], rfl⟩
  | @blank c rest tokens isBlank _ ih =>
      obtain ⟨lexemes, scanned, same⟩ := ih (position + c.utf8Size)
      refine ⟨lexemes, ?_, same⟩
      rw [Lexeme.scan, if_pos isBlank, scanned]
  | @token token text rest tokens leads _ ih =>
      obtain ⟨c, others, rfl⟩ := leads.exists_cons
      have read := Token.read_eq_ok_iff.mpr leads
      obtain ⟨lexemes, scanned, same⟩ := ih (position + token.width)
      refine ⟨⟨position, token⟩ :: lexemes, ?_, congrArg (token :: ·) same⟩
      rw [Lexeme.scan, if_neg (by simp [Token.not_isBlank_of_read read])]
      split
      · rename_i failed
        cases failed.symm.trans read
      · rename_i done
        cases done.symm.trans read
        rw [scanned]

/-- A text has its tokens in one way only. -/
theorem Tokenizes.unique {first second : List Token} (isFirst : Tokenizes text first)
    (isSecond : Tokenizes text second) : first = second := by
  obtain ⟨lexemes, scanned, rfl⟩ := Lexeme.scan_of_tokenizes isFirst 0
  obtain ⟨others, scannedAgain, rfl⟩ := Lexeme.scan_of_tokenizes isSecond 0
  rw [Except.ok.inj (scanned.symm.trans scannedAgain)]

/-! ## Reading texts -/

/-- What is read from a text is derived from its tokens. -/
theorem SurfaceFormula.derives_of_parse {text : String} {f : SurfaceFormula}
    (parsed : SurfaceFormula.parse text = .ok f) :
    ∃ tokens, Tokenizes text.toList tokens ∧ Derives .formula tokens f [] := by
  unfold SurfaceFormula.parse at parsed
  split at parsed
  · cases parsed
  · rename_i lexemes scanned
    exact ⟨tokensOf lexemes, Lexeme.tokenizes_of_scan scanned,
      (SurfaceFormula.ofLexemes_eq_ok_iff ..).mp parsed⟩

/-- A text is read as a formula exactly if the grammar derives that formula from the
tokens of the text.  Neither the cut into tokens nor the grammar is ambiguous. -/
theorem SurfaceFormula.parse_eq_ok_iff_derives :
    (∀ (text : String) (f : SurfaceFormula), SurfaceFormula.parse text = .ok f ↔
      ∃ tokens, Tokenizes text.toList tokens ∧ Derives .formula tokens f []) ∧
    (∀ (text : List Char) (first second : List Token),
      Tokenizes text first → Tokenizes text second → first = second) ∧
    ∀ (tokens : List Token) (f g : SurfaceFormula),
      Derives .formula tokens f [] → Derives .formula tokens g [] → f = g := by
  refine ⟨fun text f => ⟨derives_of_parse, ?_⟩, fun _ _ _ => Tokenizes.unique,
    fun _ _ _ => Derives.unique⟩
  rintro ⟨tokens, tokenizes, derives⟩
  obtain ⟨lexemes, scanned, rfl⟩ := Lexeme.scan_of_tokenizes tokenizes 0
  rw [SurfaceFormula.parse, scanned]
  exact (SurfaceFormula.ofLexemes_eq_ok_iff ..).mpr derives

end Entailment.FirstOrder
