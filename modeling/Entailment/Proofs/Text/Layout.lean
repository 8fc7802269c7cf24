import Entailment.Text.Blank
import Entailment.Text.Numeral

/-!
# Lines, words and numerals

A text that is written line by line is cut into these lines again, and a line of
words with a blank after each is cut into these words.  Blanks at the ends of a
line do not matter for its words.  A numeral that is written in decimal digits is
read as the number it stands for.
-/

namespace Entailment.Text

/-! ## Lines -/

/-- The text of some lines, each with a line feed at its end. -/
def unlines (all : List (List Char)) : List Char :=
  all.flatMap (· ++ ['\n'])

@[simp]
theorem unlines_nil : unlines [] = [] := rfl

@[simp]
theorem unlines_cons (line : List Char) (rest : List (List Char)) :
    unlines (line :: rest) = line ++ '\n' :: unlines rest := by
  simp [unlines]

theorem unlines_append (first second : List (List Char)) :
    unlines (first ++ second) = unlines first ++ unlines second :=
  List.flatMap_append

theorem lines_append_lineFeed {line rest : List Char} (oneLine : '\n' ∉ line) :
    lines (line ++ '\n' :: rest) = line :: lines rest := by
  induction line with
  | nil => simp [lines]
  | cons c line ih =>
      simp only [List.mem_cons, not_or] at oneLine
      rw [List.cons_append, lines, if_neg (Ne.symm oneLine.1), ih oneLine.2]

/-- The lines of a written text are those it was written from, and an empty one
after the last line feed. -/
theorem lines_unlines {all : List (List Char)} (oneLine : ∀ line ∈ all, '\n' ∉ line) :
    lines (unlines all) = all ++ [[]] := by
  induction all with
  | nil => rfl
  | cons line rest ih =>
      rw [unlines_cons, lines_append_lineFeed (oneLine line (List.mem_cons_self ..)),
        ih fun other mem => oneLine other (List.mem_cons_of_mem _ mem), List.cons_append]

/-! ## Words -/

/-- A word has characters, and none of them is blank. -/
structure IsWord (word : List Char) : Prop where
  nonempty : word ≠ []
  noBlank : ∀ c ∈ word, isBlank c = false

theorem wordsFrom_append {read word rest : List Char} (noBlank : ∀ c ∈ word, isBlank c = false) :
    wordsFrom read (word ++ rest) = wordsFrom (word.reverse ++ read) rest := by
  induction word generalizing read with
  | nil => rfl
  | cons c word ih =>
      rw [List.cons_append, wordsFrom, noBlank c (List.mem_cons_self ..), if_neg (by simp),
        ih fun other mem => noBlank other (List.mem_cons_of_mem _ mem)]
      simp

/-- A word that a blank ends. -/
theorem words_append_blank {word rest : List Char} (isWord : IsWord word) :
    words (word ++ ' ' :: rest) = word :: words rest := by
  have notEmpty : (word.reverse ++ []).isEmpty = false := by
    simpa using isWord.nonempty
  rw [words, wordsFrom_append isWord.noBlank, wordsFrom, notEmpty]
  simp [isBlank, words]

/-- A word that the text ends. -/
theorem words_eq_singleton {word : List Char} (isWord : IsWord word) : words word = [word] := by
  have whole := @wordsFrom_append [] word [] isWord.noBlank
  have notEmpty : (word.reverse ++ []).isEmpty = false := by
    simpa using isWord.nonempty
  rw [List.append_nil] at whole
  rw [words, whole, wordsFrom, notEmpty]
  simp

/-- The words of a line in which a blank follows each word but the last. -/
theorem words_flatMap_append {all : List (List Char)} {last : List Char}
    (areWords : ∀ word ∈ all, IsWord word) (isWord : IsWord last) :
    words (all.flatMap (· ++ [' ']) ++ last) = all ++ [last] := by
  induction all with
  | nil => exact words_eq_singleton isWord
  | cons word rest ih =>
      have first := areWords word (List.mem_cons_self ..)
      have others := ih fun other mem => areWords other (List.mem_cons_of_mem _ mem)
      rw [List.flatMap_cons, List.append_assoc, List.append_assoc, List.singleton_append,
        words_append_blank first, others, List.cons_append]

theorem IsWord.lineFeed_not_mem {word : List Char} (isWord : IsWord word) : '\n' ∉ word := by
  intro mem
  have notBlank := isWord.noBlank '\n' mem
  simp [isBlank] at notBlank

/-- Such a line has no line feed. -/
theorem lineFeed_not_mem {all : List (List Char)} {last : List Char}
    (areWords : ∀ word ∈ all, IsWord word) (isWord : IsWord last) :
    '\n' ∉ all.flatMap (· ++ [' ']) ++ last := by
  intro mem
  rcases List.mem_append.mp mem with inWords | inLast
  · obtain ⟨word, wordMem, inWord⟩ := List.mem_flatMap.mp inWords
    rcases List.mem_append.mp inWord with inWord | isBlank
    · exact (areWords word wordMem).lineFeed_not_mem inWord
    · simp at isBlank
  · exact isWord.lineFeed_not_mem inLast

/-! ## Trimming -/

theorem wordsFrom_trimEnd (read text : List Char) :
    wordsFrom read (trimEnd text) = wordsFrom read text := by
  induction text generalizing read with
  | nil => rfl
  | cons c rest ih =>
      unfold trimEnd
      split
      · rename_i nothingLeft
        rw [nothingLeft] at ih
        by_cases blank : isBlank c = true
        · rw [if_pos blank, wordsFrom, wordsFrom, if_pos blank, ← ih []]
          rfl
        · rw [if_neg blank, wordsFrom, if_neg blank, ih (c :: read), wordsFrom, if_neg blank]
      · rw [wordsFrom, wordsFrom, ih, ih]

/-- Blanks at the ends of a line do not matter for its words. -/
theorem words_trim (text : List Char) : words (trim text) = words text := by
  rw [words, trim, wordsFrom_trimEnd, words]
  induction text with
  | nil => rfl
  | cons c rest ih =>
      by_cases blank : isBlank c = true
      · rw [List.dropWhile_cons_of_pos blank, ih, wordsFrom, if_pos blank]
        rfl
      · rw [List.dropWhile_cons_of_neg blank]

/-- A line that starts with no blank keeps its first character. -/
theorem exists_trim_cons {c : Char} (notBlank : isBlank c = false) (rest : List Char) :
    ∃ kept, trim (c :: rest) = c :: kept := by
  rw [trim, List.dropWhile_cons_of_neg (by simp [notBlank]), trimEnd]
  split
  · exact ⟨[], by simp [notBlank]⟩
  · exact ⟨_, rfl⟩

/-! ## Numerals -/

theorem isBlank_of_isDigit {c : Char} (digit : c.isDigit = true) : isBlank c = false := by
  simp only [Char.isDigit, Bool.and_eq_true, decide_eq_true_eq, ge_iff_le,
    UInt32.le_iff_toNat_le] at digit
  have low : 48 ≤ c.toNat := digit.1
  have high : c.toNat ≤ 57 := digit.2
  simp [isBlank]
  omega

theorem digitsFrom?_eq {text : List Char} (digits : ∀ c ∈ text, c.isDigit = true) (value : Nat) :
    digitsFrom? value text = some (Nat.ofDigitChars 10 text value) := by
  induction text generalizing value with
  | nil => simp [digitsFrom?]
  | cons c rest ih =>
      have digit := digits c (List.mem_cons_self ..)
      have read : digitValue? c = some (c.toNat - '0'.toNat) := by
        simp only [Char.isDigit, Bool.and_eq_true, decide_eq_true_eq] at digit
        exact if_pos digit
      rw [digitsFrom?, read]
      simp only [Nat.ofDigitChars_cons]
      exact ih (fun other mem => digits other (List.mem_cons_of_mem _ mem)) _

/-- The decimal digits of a number. -/
theorem isDigit_of_mem {n : Nat} {c : Char} (mem : c ∈ Nat.toDigits 10 n) : c.isDigit = true :=
  Nat.isDigit_of_mem_toDigits (by omega) (by omega) mem

theorem isWord_toDigits (n : Nat) : IsWord (Nat.toDigits 10 n) :=
  ⟨Nat.toDigits_ne_nil, fun _ mem => isBlank_of_isDigit (isDigit_of_mem mem)⟩

@[simp]
theorem digits?_toDigits (n : Nat) : digits? (Nat.toDigits 10 n) = some n := by
  have value := digitsFrom?_eq (fun c mem => isDigit_of_mem mem : ∀ c ∈ Nat.toDigits 10 n, _) 0
  rw [Nat.ofDigitChars_toDigits (by omega) (by omega)] at value
  cases written : Nat.toDigits 10 n with
  | nil => exact absurd written Nat.toDigits_ne_nil
  | cons c rest =>
      rw [written] at value
      exact value

/-- A numeral starts with a digit, so it has no sign. -/
theorem exists_toDigits_cons (n : Nat) :
    ∃ c rest, Nat.toDigits 10 n = c :: rest ∧ c ≠ '+' ∧ c ≠ '-' ∧ c ≠ 'c' ∧ c ≠ 'p' := by
  cases written : Nat.toDigits 10 n with
  | nil => exact absurd written Nat.toDigits_ne_nil
  | cons c rest =>
      have digit : c.isDigit = true := @isDigit_of_mem n c (written ▸ List.mem_cons_self ..)
      refine ⟨c, rest, rfl, ?_, ?_, ?_, ?_⟩
      all_goals
        rintro rfl
        simp [Char.isDigit] at digit

/-- A numeral is read back within its range, and refused outside it. -/
theorem natural?_toDigits_eq (n largest : Nat) :
    natural? largest (Nat.toDigits 10 n) = if n ≤ largest then some n else none := by
  obtain ⟨c, rest, written, notPlus, -⟩ := exists_toDigits_cons n
  have digits := digits?_toDigits n
  rw [written] at digits ⊢
  simp [natural?, notPlus, digits]

theorem natural?_toDigits {n largest : Nat} (within : n ≤ largest) :
    natural? largest (Nat.toDigits 10 n) = some n := by
  rw [natural?_toDigits_eq, if_pos within]

/-- A numeral with its sign. -/
def signedDigits (value : Int) : List Char :=
  if value < 0 then '-' :: Nat.toDigits 10 value.natAbs else Nat.toDigits 10 value.natAbs

@[simp]
theorem toList_repr (value : Int) : value.repr.toList = signedDigits value := by
  cases value with
  | ofNat n => simp [Int.repr, signedDigits]
  | negSucc n => simp [Int.repr, signedDigits]

theorem isWord_signedDigits (value : Int) : IsWord (signedDigits value) := by
  have isWord := isWord_toDigits value.natAbs
  unfold signedDigits
  split
  · refine ⟨by simp, fun c mem => ?_⟩
    rcases List.mem_cons.mp mem with rfl | inDigits
    · rfl
    · exact isWord.noBlank c inDigits
  · exact isWord

/-- A numeral with its sign that is within its range is read back. -/
theorem integer?_signedDigits {least largest value : Int} (low : least ≤ value)
    (high : value ≤ largest) : integer? least largest (signedDigits value) = some value := by
  obtain ⟨c, rest, written, notPlus, notMinus, -⟩ := exists_toDigits_cons value.natAbs
  have digits := digits?_toDigits value.natAbs
  unfold signedDigits
  split
  · rename_i negative
    have isValue : -Int.ofNat value.natAbs = value := by
      have := Int.ofNat_natAbs_of_nonpos (Int.le_of_lt negative)
      simp only [Int.ofNat_eq_natCast]
      omega
    simp only [integer?, digits, Option.map_some, isValue, low, high, and_self, if_true]
  · rename_i notNegative
    have isValue : Int.ofNat value.natAbs = value :=
      Int.natAbs_of_nonneg (Int.not_lt.mp notNegative)
    rw [written] at digits ⊢
    simp only [integer?, List.cons.injEq, notPlus, notMinus, false_and, imp_false,
      not_false_eq_true, implies_true, digits, Option.map_some, isValue, low, high, and_self,
      if_true]

end Entailment.Text
