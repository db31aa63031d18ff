import Octo.Constraint.Lexer

/-!
# Lexemes

What the lexer makes of the texts that a CHECK constraint is written with: a word up to its end, a
number, a quoted text, a sign. A word is read alone when no letter of a word and no rest of a
keyword of several words follows it. Conversely, every token that the lexer finds has the shape of
its kind.
-/
namespace Octo.Constraint

open Octo.Foundation List Char

/-! ## Words -/

/-- `[a-zA-Z_][a-zA-Z0-9_$^]*`. -/
def isWord (word : List Char) : Bool :=
  word.head?.any isIdentifierStart && word.all isIdentifierPart

/-- A word ends before this text. -/
structure WordBoundary (rest : List Char) : Prop where
  noPart : ∀ letter ∈ rest.head?, isIdentifierPart letter = false
  noPhrase : ∀ phrase ∈ phrases, matchWords phrase.2.1 rest = none

variable {letter : Char} {word behind text : List Char} {token : Token}

theorem isIdentifierPart_of_isAlpha (alpha : letter.isAlpha) : isIdentifierPart letter := by
  simp [isIdentifierPart, alpha]

theorem not_isSpace_of_isIdentifierPart (part : isIdentifierPart letter) :
    isSpace letter = false := by
  by_contra space
  simp only [Bool.not_eq_false, isSpace, isBlank, Bool.or_eq_true, beq_iff_eq] at space
  obtain ((rfl | rfl) | rfl) | rfl := space <;> revert part <;> decide

theorem not_isBlank_of_isIdentifierPart (part : isIdentifierPart letter) :
    isBlank letter = false := by
  have := not_isSpace_of_isIdentifierPart part
  simp only [isSpace, Bool.or_eq_false_iff] at this
  exact this.1

variable {rest : List Char} {first second : Char}
  (noPart : ∀ letter ∈ rest.head?, isIdentifierPart letter = false)

include noPart in
/-- What a word leaves of a text, when only a part of the text is made of letters of words. -/
theorem append_of_matchWord {expected : List Char} (alpha : ∀ letter ∈ expected, letter.isAlpha)
    (parts : ∀ letter ∈ word, isIdentifierPart letter)
    (matched : matchWord expected (word ++ rest) = some behind) :
    ∃ suffix, (∀ letter ∈ suffix, isIdentifierPart letter) ∧ behind = suffix ++ rest := by
  obtain ⟨before, same, rfl⟩ := upper_of_matchWord matched
  obtain ⟨more, rfl, rfl⟩ | ⟨suffix, rfl, rfl⟩ := append_eq_append_iff.1 same
  · cases more with
    | nil => exact ⟨[], forall_mem_nil _, rfl⟩
    | cons letter more =>
      have isAlpha : letter.toUpper.isAlpha := alpha _ (by simp [upper])
      rw [isAlpha_toUpper_eq_isAlpha] at isAlpha
      exact absurd (isIdentifierPart_of_isAlpha isAlpha) (by simp [noPart letter rfl])
  · exact ⟨suffix, fun letter member => parts letter (mem_append_right _ member), rfl⟩

/-- No keyword of several words goes on before a letter that is no blank. -/
theorem matchWords_eq_none {phrase : String × List String × Keyword} (member : phrase ∈ phrases)
    (noBlank : ∀ letter ∈ rest.head?, isBlank letter = false) :
    matchWords phrase.2.1 rest = none := by
  have nonempty : ∀ phrase ∈ phrases, phrase.2.1 ≠ [] := by decide
  obtain ⟨word, words, same⟩ := exists_cons_of_ne_nil (nonempty phrase member)
  cases rest with
  | nil => rw [same, matchWords]
  | cons letter rest => simp [same, matchWords, noBlank letter rfl]

include noPart in
/-- A keyword of several words begins with a word only when it goes on behind it. -/
theorem matchPhrase_eq_none (parts : ∀ letter ∈ word, isIdentifierPart letter)
    (ends : ∀ phrase ∈ phrases, phrase.1.toList = upper word → matchWords phrase.2.1 rest = none) :
    matchPhrase (word ++ rest) = none := by
  rw [matchPhrase, findSome?_eq_none_iff]
  intro phrase member
  have alpha : ∀ phrase ∈ phrases, phrase.1.toList.all isAlpha := by decide
  rw [Option.map_eq_none_iff, Option.bind_eq_none_iff]
  intro behind matched
  obtain ⟨suffix, suffixParts, rfl⟩ :=
    append_of_matchWord noPart (all_eq_true.1 (alpha phrase member)) parts matched
  cases suffix with
  | nil =>
    obtain ⟨before, same, spelled⟩ := upper_of_matchWord matched
    rw [nil_append, append_cancel_right_eq] at same
    exact ends phrase member (by rw [same, spelled])
  | cons letter suffix =>
    refine matchWords_eq_none member ?_
    rintro _ ⟨⟩
    exact not_isBlank_of_isIdentifierPart (suffixParts letter mem_cons_self)

theorem isIdentifierPart_of_mem_word (isWord : isWord word) :
    ∀ letter ∈ word, isIdentifierPart letter := by
  simp only [Constraint.isWord, Bool.and_eq_true, all_eq_true] at isWord
  exact isWord.2

include noPart in
/-- A word is read to its end when no keyword of several words begins with it. -/
theorem lex_word_of_noPhrase (isWord : isWord word) (noPhrase : matchPhrase (word ++ rest) = none) :
    lex (word ++ rest) = wordToken word :: lex rest := by
  simp only [Constraint.isWord, Bool.and_eq_true, Option.any_eq_true, all_eq_true] at isWord
  obtain ⟨⟨letter, head, start⟩, parts⟩ := isWord
  obtain ⟨others, rfl⟩ := head?_eq_some_iff.1 head
  have taken := takeWhile_of_stop parts noPart
  have dropped := dropWhile_of_stop parts noPart
  have step : nextLexeme (letter :: others ++ rest) =
      some (some (wordToken (letter :: others)), rest) := by
    have noSpace := not_isSpace_of_isIdentifierPart (isIdentifierPart_of_start start)
    simp only [cons_append, nextLexeme, noSpace, start, Bool.false_eq_true, if_false, if_true]
    rw [← cons_append, lexWord, noPhrase, taken, dropped]
  exact lex_token step

/-- A word is read up to a boundary. -/
theorem lex_word (isWord : isWord word) (boundary : WordBoundary rest) :
    lex (word ++ rest) = wordToken word :: lex rest := by
  apply lex_word_of_noPhrase boundary.noPart isWord
  apply matchPhrase_eq_none boundary.noPart (isIdentifierPart_of_mem_word isWord)
  intro phrase member _
  exact boundary.noPhrase phrase member

/-- The words that begin no keyword of several words. -/
def beginsNoPhrase (word : List Char) : Bool :=
  phrases.all fun phrase => phrase.1.toList != upper word

/-- A word that begins no keyword of several words is read up to any space. -/
theorem lex_word_space (isWord : isWord word) (alone : beginsNoPhrase word) (rest : List Char) :
    lex (word ++ ' ' :: rest) = wordToken word :: lex rest := by
  have noPart : ∀ letter ∈ (' ' :: rest).head?, isIdentifierPart letter = false := by
    rintro _ ⟨⟩
    decide
  have noPhrase : matchPhrase (word ++ ' ' :: rest) = none := by
    apply matchPhrase_eq_none noPart (isIdentifierPart_of_mem_word isWord)
    intro phrase member same
    have different := all_eq_true.1 alone phrase member
    simp [same] at different
  rw [lex_word_of_noPhrase noPart isWord noPhrase, lex_skip rfl]

/-! ## Numbers and quoted texts -/

/-- Neither a number nor a quoted text goes on in this text. -/
structure Detached (rest : List Char) : Prop where
  noDigit : ∀ letter ∈ rest.head?, letter.isDigit = false
  noPoint : rest.head? ≠ some '.'
  noQuote : rest.head? ≠ some '\''
  noDoubleQuote : rest.head? ≠ some (Char.ofNat 34)

/-- `[0-9]+`. -/
def isInteger (text : List Char) : Bool :=
  !text.isEmpty && text.all Char.isDigit

/-- `[0-9]+"."[0-9]*|"."[0-9]+`. -/
def isNumeric (text : List Char) : Bool :=
  match text.dropWhile Char.isDigit with
  | '.' :: fraction => fraction.all Char.isDigit && text != ['.']
  | _ => false

theorem not_start_of_isDigit (digit : letter.isDigit) :
    isSpace letter = false ∧ isIdentifierStart letter = false := by
  constructor
  · apply not_isSpace_of_isIdentifierPart
    simp [isIdentifierPart, digit]
  · simp only [isDigit] at digit
    have noAlpha : letter.isAlpha = false := by
      simp only [isAlpha, isUpper, isLower]
      grind
    have noUnderscore : letter ≠ '_' := by
      rintro rfl
      revert digit
      decide
    simp [isIdentifierStart, noAlpha, noUnderscore]

theorem lex_number (first : ∃ letter ∈ text.head?, letter.isDigit ∨ letter = '.') :
    lex (text ++ rest)
    = (lexNumber (text ++ rest)).1.toList ++ lex (lexNumber (text ++ rest)).2 := by
  obtain ⟨letter, head, number⟩ := first
  obtain ⟨others, rfl⟩ := head?_eq_some_iff.1 head
  have noOther : isSpace letter = false ∧ isIdentifierStart letter = false := by
    obtain digit | rfl := number
    · exact not_start_of_isDigit digit
    · decide
  apply lex_of_next
  simp [nextLexeme, noOther.1, noOther.2, number]

theorem lex_integer (integer : isInteger text) (detached : Detached rest) :
    lex (text ++ rest) = .literal .integerLiteral text :: lex rest := by
  simp only [isInteger, Bool.and_eq_true, Bool.not_eq_true', isEmpty_eq_false_iff,
    all_eq_true] at integer
  obtain ⟨nonempty, digits⟩ := integer
  have first : ∃ letter ∈ text.head?, letter.isDigit ∨ letter = '.' :=
    ⟨text.head nonempty, head?_eq_some_head nonempty, .inl (digits _ (head_mem nonempty))⟩
  have step : lexNumber (text ++ rest) = (some (.literal .integerLiteral text), rest) := by
    rw [lexNumber, takeWhile_of_stop digits detached.noDigit,
      dropWhile_of_stop digits detached.noDigit]
    split
    case h_1 behind => exact absurd rfl detached.noPoint
    case h_2 => rfl
  rw [lex_number first, step]
  rfl

theorem not_isDigit_point (rest : List Char) :
    ∀ letter ∈ ('.' :: rest).head?, letter.isDigit = false := by
  rintro _ ⟨⟩
  decide

/-- A numeric literal has digits on at least one side of its point. -/
theorem isNumeric_iff :
    isNumeric text ↔ ∃ whole fraction, text = whole ++ '.' :: fraction ∧
      (∀ letter ∈ whole, letter.isDigit) ∧ (∀ letter ∈ fraction, letter.isDigit) ∧
      ¬ (whole = [] ∧ fraction = []) := by
  constructor
  · intro numeric
    have split := takeWhile_append_dropWhile (p := isDigit) (l := text)
    unfold isNumeric at numeric
    split at numeric
    case h_1 fraction pointed =>
      simp only [Bool.and_eq_true, all_eq_true, bne_iff_ne] at numeric
      rw [pointed] at split
      refine ⟨_, fraction, split.symm, fun letter => mem_takeWhile_imp, numeric.1, ?_⟩
      rintro ⟨noWhole, rfl⟩
      rw [noWhole] at split
      exact numeric.2 split.symm
    case h_2 => simp at numeric
  · rintro ⟨whole, fraction, rfl, wholeDigits, fractionDigits, nonempty⟩
    rw [isNumeric, dropWhile_of_stop wholeDigits (not_isDigit_point fraction)]
    simp only [Bool.and_eq_true, all_eq_true, bne_iff_ne]
    refine ⟨fractionDigits, fun alone => nonempty ?_⟩
    cases whole with
    | nil => exact ⟨rfl, by simpa using alone⟩
    | cons letter whole => simp at alone

theorem lex_numeric (numeric : isNumeric text) (detached : Detached rest) :
    lex (text ++ rest) = .literal .numericLiteral text :: lex rest := by
  obtain ⟨whole, fraction, rfl, wholeDigits, fractionDigits, nonempty⟩ := isNumeric_iff.1 numeric
  have first : ∃ letter ∈ (whole ++ '.' :: fraction).head?, letter.isDigit ∨ letter = '.' := by
    cases whole with
    | nil => exact ⟨'.', rfl, .inr rfl⟩
    | cons letter whole => exact ⟨letter, rfl, .inl (wholeDigits letter mem_cons_self)⟩
  have stop := not_isDigit_point (fraction ++ rest)
  have step : lexNumber (whole ++ '.' :: fraction ++ rest) =
      (some (.literal .numericLiteral (whole ++ '.' :: fraction)), rest) := by
    rw [append_assoc, cons_append, lexNumber, takeWhile_of_stop wholeDigits stop,
      dropWhile_of_stop wholeDigits stop]
    simp only [takeWhile_of_stop fractionDigits detached.noDigit,
      dropWhile_of_stop fractionDigits detached.noDigit, if_neg nonempty]
  rw [lex_number first, step]
  rfl

/-- A point before a letter that is no digit. -/
theorem lex_period (noDigit : ∀ letter ∈ rest.head?, letter.isDigit = false) :
    lex ('.' :: rest) = .sign .period :: lex rest := by
  have noFraction : rest.takeWhile isDigit = [] := by
    simpa using takeWhile_of_stop (forall_mem_nil _) noDigit
  have step : lexNumber ('.' :: rest) = (some (.sign .period), rest) := by
    simp [lexNumber, noFraction]
  have := @lex_number ['.'] rest ⟨'.', rfl, .inr rfl⟩
  simpa [step] using this

/-- A quoted text is read up to its quote when it has no quote inside. -/
theorem quoted_of_notMem {quote : Char} (noQuote : quote ∉ text)
    (detached : rest.head? ≠ some quote) :
    quoted quote (text ++ quote :: rest) = some (text, rest) := by
  induction text with
  | nil =>
    cases rest with
    | nil => simp [quoted]
    | cons next rest =>
      have different : next ≠ quote := by simpa using detached
      simp [quoted, different]
  | cons letter text ih =>
    rw [mem_cons, not_or] at noQuote
    have inner := ih noQuote.2
    have different : letter ≠ quote := Ne.symm noQuote.1
    obtain ⟨next, behind, same⟩ : ∃ next behind, text ++ quote :: rest = next :: behind := by
      cases text <;> simp
    rw [cons_append, same, quoted, if_neg different, ← same, inner]
    rfl

theorem lex_singleString (nonempty : text ≠ []) (noQuote : '\'' ∉ text)
    (detached : rest.head? ≠ some '\'') :
    lex ('\'' :: (text ++ '\'' :: rest)) = .literal .stringLiteral text :: lex rest := by
  have step : lexSingleString (text ++ '\'' :: rest) =
      (some (.literal .stringLiteral text), rest) := by
    rw [lexSingleString, quoted_of_notMem noQuote detached]
    cases text with
    | nil => exact absurd rfl nonempty
    | cons letter text => rfl
  have next : nextLexeme ('\'' :: (text ++ '\'' :: rest)) =
      some (lexSingleString (text ++ '\'' :: rest)) := rfl
  rw [step] at next
  exact lex_token next

theorem lex_string (noQuote : ofNat 34 ∉ text) (detached : rest.head? ≠ some (ofNat 34)) :
    lex (ofNat 34 :: (text ++ ofNat 34 :: rest)) =
      .doubleQuoteLiteral text :: lex rest := by
  have next : nextLexeme (ofNat 34 :: (text ++ ofNat 34 :: rest)) =
      some (lexString (text ++ ofNat 34 :: rest)) := rfl
  rw [lexString, quoted_of_notMem noQuote detached] at next
  exact lex_token next

/-! ## Signs and spaces -/

section

variable (rest : List Char)

theorem lex_space : lex (' ' :: rest) = lex rest := lex_skip rfl

theorem lex_comma : lex (',' :: rest) = .sign .comma :: lex rest := lex_token rfl

theorem lex_leftParen : lex ('(' :: rest) = .sign .leftParen :: lex rest := lex_token rfl

theorem lex_rightParen : lex (')' :: rest) = .sign .rightParen :: lex rest := lex_token rfl

theorem lex_colon : lex (':' :: rest) = .sign .colon :: lex rest := lex_token rfl

end

/-! ## Separators -/

/-- Nothing that stands before this text goes on in it. -/
structure Separated (rest : List Char) : Prop extends Detached rest, WordBoundary rest

/-- The letters that end every lexeme before them. -/
def isSeparator (letter : Char) : Bool :=
  !isIdentifierPart letter && !isBlank letter && letter != '.' && letter != '\'' &&
    letter != Char.ofNat 34

theorem separated_nil : Separated [] := by
  refine ⟨⟨by simp, by simp, by simp, by simp⟩, ⟨by simp, fun phrase member => ?_⟩⟩
  exact matchWords_eq_none member (by simp)

theorem not_isDigit_of_not_part (noPart : isIdentifierPart letter = false) :
    letter.isDigit = false := by
  simp only [isIdentifierPart, Bool.or_eq_false_iff] at noPart
  exact noPart.1.1.1.2

theorem wordBoundary_cons (noPart : isIdentifierPart letter = false)
    (noBlank : isBlank letter = false) : WordBoundary (letter :: rest) := by
  refine ⟨by rintro _ ⟨⟩; exact noPart, fun phrase member => ?_⟩
  exact matchWords_eq_none member (by rintro _ ⟨⟩; exact noBlank)

theorem separated_cons (separator : isSeparator letter) :
    Separated (letter :: rest) := by
  simp only [isSeparator, Bool.and_eq_true, Bool.not_eq_true'] at separator
  obtain ⟨⟨⟨⟨noPart, noBlank⟩, noPoint⟩, noQuote⟩, noDoubleQuote⟩ := separator
  exact ⟨⟨by rintro _ ⟨⟩; exact not_isDigit_of_not_part noPart, by simpa using noPoint,
    by simpa using noQuote, by simpa using noDoubleQuote⟩, wordBoundary_cons noPart noBlank⟩

theorem matchWord_eq_none (long : 2 ≤ word.length)
    (different : word.take 2 ≠ [first.toUpper, second.toUpper]) :
    matchWord word (first :: second :: rest) = none := by
  match word with
  | expected :: next :: word =>
    simp only [take_succ_cons, take_zero, ne_eq, cons.injEq, and_true, not_and] at different
    simp only [matchWord]
    split
    case isTrue same => exact if_neg fun sameNext => different same.symm sameNext.symm
    case isFalse => rfl

/-- No keyword of several words goes on after a space with these two letters. -/
def isFresh (first second : Char) : Bool :=
  !isBlank first && phrases.all fun phrase =>
    (phrase.2.1.headD "").toList.take 2 != [first.toUpper, second.toUpper]

theorem separated_space (fresh : isFresh first second) :
    Separated (' ' :: first :: second :: rest) := by
  simp only [isFresh, Bool.and_eq_true, Bool.not_eq_true', all_eq_true, bne_iff_ne] at fresh
  refine ⟨⟨by rintro _ ⟨⟩; decide, by simp, by simp, by simp⟩, ⟨by rintro _ ⟨⟩; decide, ?_⟩⟩
  have shape : ∀ phrase ∈ phrases, phrase.2.1 ≠ [] ∧
      2 ≤ (phrase.2.1.headD "").toList.length := by decide
  intro phrase member
  obtain ⟨nonempty, long⟩ := shape phrase member
  have different := fresh.2 phrase member
  obtain ⟨word, words, same⟩ := exists_cons_of_ne_nil nonempty
  rw [same, headD_cons] at long different
  have blank : isBlank ' ' = true := by decide
  simp [same, matchWords, fresh.1, matchWord_eq_none long different]

/-! ## The shape of tokens -/

theorem isIdentifier_toLower (letter : Char) :
    isIdentifierPart letter.toLower = isIdentifierPart letter ∧
      isIdentifierStart letter.toLower = isIdentifierStart letter := by
  by_cases capital : letter.isUpper
  · have alpha : letter.isAlpha := by simp [isAlpha, capital]
    simp [isIdentifierPart, isIdentifierStart, alpha]
  · rw [toLower_eq_of_not_isUpper capital]
    exact ⟨rfl, rfl⟩

section

variable (word : List Char)

theorem isWord_lower : isWord (lower word) = isWord word := by
  cases word with
  | nil => rfl
  | cons letter word =>
    simp [isWord, lower, isIdentifier_toLower, Function.comp_def]

theorem upper_lower : upper (lower word) = upper word := by
  simp [upper, lower]

theorem lower_lower : lower (lower word) = lower word := by
  simp [lower]

/-- A word in small letters is the same keyword or function, or an identifier too. -/
theorem wordToken_lower :
    wordToken (lower word) = wordToken word ∨
      wordToken word = .identifierAlone word ∧
        wordToken (lower word) = .identifierAlone (lower word) := by
  unfold wordToken
  rw [upper_lower]
  split
  case h_1 keyword found => exact .inl rfl
  case h_2 =>
    split
    · exact .inl (by rw [lower_lower])
    · exact .inr ⟨rfl, rfl⟩

theorem wordToken_cases :
    (∃ keyword, wordToken word = .keyword keyword) ∨
      wordToken word = .parenlessFunction (lower word) ∨
      wordToken word = .identifierAlone word := by
  unfold wordToken
  split
  case h_1 keyword found => exact .inl ⟨keyword, rfl⟩
  case h_2 =>
    split
    · exact .inr (.inl rfl)
    · exact .inr (.inr rfl)

end

theorem eq_of_wordToken_identifier (found : wordToken word = .identifierAlone text) :
    text = word := by
  have shape := wordToken_cases word
  simpa [found] using shape

theorem wordToken_lower_of_identifier (alone : wordToken word = .identifierAlone word) :
    wordToken (lower word) = .identifierAlone (lower word) := by
  obtain same | ⟨-, lowered⟩ := wordToken_lower word
  · rw [alone] at same
    rw [same, ← eq_of_wordToken_identifier same]
  · exact lowered

/-- What every token of the lexer is. -/
def Token.isLexed : Token → Bool
  | .literal .stringLiteral text => text != []
  | .literal .integerLiteral text => isInteger text
  | .literal .numericLiteral text => isNumeric text
  | .identifierAlone text => isWord text && wordToken text == .identifierAlone text
  | .parenlessFunction text => isWord text && wordToken text == .parenlessFunction text
  | _ => true

theorem isLexed_wordToken (isWord : isWord word) : (wordToken word).isLexed := by
  obtain ⟨keyword, found⟩ | found | found := wordToken_cases word
  · rw [found]
    rfl
  · have lowered := wordToken_lower word
    simp only [found, reduceCtorEq, false_and, or_false] at lowered
    simp [Token.isLexed, isWord_lower, isWord, found, lowered]
  · simp [Token.isLexed, isWord, found]

theorem isLexed_of_lexNumber (number : letter.isDigit ∨ letter = '.')
    (found : lexNumber (letter :: rest) = (some token, behind)) : token.isLexed := by
  unfold lexNumber at found
  dsimp only at found
  split at found
  case h_1 behind pointed =>
    split at found <;> simp only [Prod.mk.injEq, Option.some.injEq] at found <;> rw [← found.1]
    case isTrue => rfl
    case isFalse nonempty =>
      exact isNumeric_iff.2 ⟨_, _, rfl, fun letter => mem_takeWhile_imp,
        fun letter => mem_takeWhile_imp, nonempty⟩
  case h_2 notPointed =>
    simp only [Prod.mk.injEq, Option.some.injEq] at found
    have digit : letter.isDigit := by
      refine number.resolve_right ?_
      rintro rfl
      exact notPointed rest (by simp)
    rw [← found.1]
    simp [Token.isLexed, isInteger, digit]

theorem isLexed_of_nextLexeme {input : List Char}
    (found : nextLexeme input = some (some token, rest)) : token.isLexed := by
  unfold nextLexeme at found
  split at found
  case h_1 => simp at found
  case h_2 letter rest =>
    split_ifs at found
    case pos => simp at found
    case pos start =>
      simp only [lexWord] at found
      split at found
      · simp only [Prod.mk.injEq, Option.some.injEq] at found
        rw [← found.1]
        rfl
      · simp only [Prod.mk.injEq, Option.some.injEq] at found
        rw [← found.1]
        apply isLexed_wordToken
        have part := isIdentifierPart_of_start start
        simp [isWord, part, start]
    case pos number =>
      exact isLexed_of_lexNumber (by simpa using number) (Option.some.inj found)
    case pos =>
      simp only [lexSingleString] at found
      split at found <;> simp only [Prod.mk.injEq, Option.some.injEq, reduceCtorEq,
        false_and] at found
      · rw [← found.1]
        rfl
      · rw [← found.1]
        simp_all [Token.isLexed]
    all_goals
      simp only [lexString, lexBackTick, lexSign] at found
      split at found <;> simp only [Prod.mk.injEq, Option.some.injEq, reduceCtorEq,
        false_and] at found <;> rw [← found.1] <;> rfl

theorem isLexed_of_mem_lex (member : token ∈ lex text) : token.isLexed := by
  have all : ∀ token ∈ lexer.tokens text, token.isLexed = true := by
    apply Scanner.forall_mem_tokens
    intro input token rest found
    exact isLexed_of_nextLexeme found
  exact all token member

end Octo.Constraint
