import Octo.Constraint.EmittedTokens

/-!
# Lexing a written statement

The lexer finds in the text of a statement the tokens of the statement. What follows the text only
matters for its last lexeme. A text that ends in a word is read up to that word, and the word is
read with what follows. All other texts are read to their end.
-/
namespace Octo.Constraint

open Octo.Dml (DateTimeFormat)
open List

variable {rest : List Char} {name : Name}

/-! ## Parts -/

variable {word : List Char} (type : DateTimeType) (format : DateTimeFormat)

theorem lex_wordTokens (isWord : word = [] ∨ isWord word) (boundary : WordBoundary rest) :
    lex (word ++ rest) = wordTokens word ++ lex rest := by
  obtain rfl | isWord := isWord
  · simp [wordTokens]
  · have nonempty : word ≠ [] := by
      rintro rfl
      simp [Constraint.isWord] at isWord
    rw [lex_word isWord boundary, wordTokens, if_neg nonempty]
    rfl

theorem isWord_of_isPlain {part : List Char} (plain : isPlain part) : isWord part := by
  simp only [isPlain, Bool.and_eq_true] at plain
  exact plain.1

/-- The head of a word is no digit. -/
theorem not_isDigit_head_of_isWord (isWord : isWord word) :
    ∀ letter ∈ (word ++ rest).head?, letter.isDigit = false := by
  cases word with
  | nil => simp [Constraint.isWord] at isWord
  | cons first word =>
    rintro _ ⟨⟩
    simp only [Constraint.isWord, head?_cons, Option.any_some] at isWord
    by_contra digit
    rw [Bool.not_eq_false] at digit
    rw [(not_start_of_isDigit digit).2] at isWord
    simp at isWord

theorem wordBoundary_period (rest : List Char) : WordBoundary ('.' :: rest) :=
  wordBoundary_cons (by decide) (by decide)

/-- A path is read up to its last part. -/
theorem lex_path {parts : List (List Char)} (words : ∀ part ∈ parts, isWord part)
    (rest : List Char) :
    lex (['.'].intercalate parts ++ rest) =
      pathBody parts ++ lex (parts.getLastD [] ++ rest) := by
  induction parts with
  | nil => rfl
  | cons part parts ih =>
    cases parts with
    | nil => simp [pathBody]
    | cons next parts =>
      have nextWord := words next (by simp)
      have inner := ih (forall_mem_of_forall_mem_cons words)
      have head : ∀ letter ∈ (['.'].intercalate (next :: parts) ++ rest).head?,
          letter.isDigit = false := by
        cases parts with
        | nil => simpa using not_isDigit_head_of_isWord nextWord
        | cons after parts =>
          rw [intercalate_cons_cons, append_assoc, append_assoc]
          exact not_isDigit_head_of_isWord nextWord
      rw [intercalate_cons_cons, append_assoc, append_assoc, singleton_append,
        lex_word (words part (by simp)) (wordBoundary_period _), lex_period head, inner]
      simp [pathBody]

/-- A name whose text the lexer takes apart at its periods only. -/
def NameLexable (name : Name) : Prop :=
  if name.isDoubleQuoted then Char.ofNat 34 ∉ name.text
  else ∀ part ∈ nameParts name.text, isWord part

theorem NamePrintable.lexable {limit : Nat} (printable : NamePrintable limit name) :
    NameLexable name := by
  unfold NamePrintable at printable
  unfold NameLexable
  split at printable
  case isTrue quoted => rwa [if_pos quoted]
  case isFalse unquoted =>
    rw [if_neg unquoted]
    exact fun part member => isWord_of_isPlain (printable.2 part member)

theorem nameParts_of_isWord (isWord : isWord word) : nameParts word = [word] := by
  apply splitOn_eq_singleton
  intro member
  have := isIdentifierPart_of_mem_word isWord '.' member
  revert this
  decide

theorem lexable_of_isWord (unquoted : name.isDoubleQuoted = false) (isWord : isWord name.text) :
    NameLexable name := by
  rw [NameLexable, unquoted, nameParts_of_isWord isWord]
  simpa using isWord

theorem lex_name (lexable : NameLexable name) (detached : nameLast name = [] → Detached rest) :
    lex (nameText name ++ rest) = nameBody name ++ lex (nameLast name ++ rest) := by
  unfold NameLexable at lexable
  unfold nameText nameBody nameLast at *
  split at lexable
  case isTrue quoted =>
    simp only [if_pos quoted] at detached ⊢
    have := lex_string lexable (detached trivial).noDoubleQuote
    simpa using this
  case isFalse unquoted =>
    simp only [if_neg unquoted]
    have split : ['.'].intercalate (nameParts name.text) = name.text :=
      intercalate_splitOn '.'
    have := lex_path lexable rest
    rwa [split] at this

theorem isWord_nameLast (lexable : NameLexable name) :
    nameLast name = [] ∨ isWord (nameLast name) := by
  unfold NameLexable at lexable
  unfold nameLast
  split at lexable
  case isTrue quoted => exact .inl (if_pos quoted)
  case isFalse unquoted =>
    rw [if_neg unquoted]
    have nonempty : nameParts name.text ≠ [] := splitOn_ne_nil '.' name.text
    right
    rw [getLastD_eq_getLast?, getLast?_eq_some_getLast nonempty]
    exact lexable _ (getLast_mem nonempty)

/-- A name that is called. -/
theorem lex_callee (lexable : NameLexable name) (rest : List Char) :
    lex (nameText name ++ '(' :: rest) =
      nameBody name ++ (wordTokens (nameLast name) ++ .sign .leftParen :: lex rest) := by
  have separated : Separated ('(' :: rest) := separated_cons (by decide)
  rw [lex_name lexable fun _ => separated.toDetached,
    lex_wordTokens (isWord_nameLast lexable) separated.toWordBoundary, lex_leftParen]

theorem lex_formatText (rest : List Char) :
    lex (formatText format ++ rest) = formatTokens format ++ lex rest := by
  have closed : ∀ rest : List Char, WordBoundary (')' :: rest) := fun rest =>
    wordBoundary_cons (by decide) (by decide)
  have inside : ∀ (word : List Char) (token : Token), isWord word → wordToken word = token →
      lex ('(' :: (word ++ ')' :: rest)) =
        .sign .leftParen :: token :: .sign .rightParen :: lex rest := by
    intro word token isWord same
    rw [lex_leftParen, lex_word isWord (closed rest), lex_rightParen, same]
  cases format with
  | text => rfl
  | horolog => exact inside "horolog".toList _ (by decide) (by decide)
  | zhorolog => exact inside "zhorolog".toList _ (by decide) (by decide)
  | fileman => exact inside "fileman".toList _ (by decide) (by decide)
  | zut => exact inside "zut".toList _ (by decide) (by decide)

theorem lex_withTimeZone (rest : List Char) :
    lex (" WITH TIME ZONE".toList ++ rest) = .keyword .WITH_TIME_ZONE :: lex rest := by
  have step : nextLexeme ("WITH TIME ZONE".toList ++ rest) =
      some (some (.keyword .WITH_TIME_ZONE), rest) := rfl
  change lex (' ' :: ("WITH TIME ZONE".toList ++ rest)) = _
  rw [lex_space, lex_token step]

theorem lex_zone (rest : List Char) :
    lex (type.words.2 ++ rest) = type.tokens.2 ++ lex rest := by
  cases type with
  | date | time | timestamp => rfl
  | timeWithTimeZone | timestampWithTimeZone => exact lex_withTimeZone rest

/-- A type and a format before a quote. -/
theorem lex_dateTimeType (rest : List Char) :
    lex (type.words.1 ++ (formatText format ++ (type.words.2 ++ '\'' :: rest))) =
      dateTimeTokens type format ++ lex ('\'' :: rest) := by
  have isWord : isWord type.words.1 := by cases type <;> decide
  have token : wordToken type.words.1 = type.tokens.1 := by cases type <;> decide
  have boundary : WordBoundary (formatText format ++ (type.words.2 ++ '\'' :: rest)) := by
    cases format with
    | text =>
      cases type with
      | date | time | timestamp => exact wordBoundary_cons (by decide) (by decide)
      | timeWithTimeZone | timestampWithTimeZone =>
        exact (separated_space (by decide)).toWordBoundary
    | horolog | zhorolog | fileman | zut => exact wordBoundary_cons (by decide) (by decide)
  rw [lex_word isWord boundary, lex_formatText, lex_zone, token, dateTimeTokens]
  simp

/-! ## Types -/

theorem isInteger_decimal (size : Size) : isInteger (decimal size) := by
  have nonempty : decimal size ≠ [] := Nat.toDigits_ne_nil
  have digits : ∀ letter ∈ decimal size, letter.isDigit := fun letter member =>
    Nat.isDigit_of_mem_toDigits (by decide) (by decide) member
  simpa [isInteger, nonempty] using digits

theorem lex_sizesText (sizes : List Size) (rest : List Char) :
    lex (sizesText sizes ++ rest) = sizesTokens sizes ++ lex rest := by
  have separator : ∀ {letter : Char} (rest : List Char), isSeparator letter →
      Detached (letter :: rest) := fun rest separator => (separated_cons separator).toDetached
  have detached (scale : List Size) :
      Detached (scale.flatMap (fun size => ',' :: decimal size) ++ ')' :: rest) := by
    cases scale with
    | nil => exact separator rest (by decide)
    | cons next scale => exact separator _ (by decide)
  -- The scales behind the first size, each after a comma.
  have scales : ∀ scale : List Size,
      lex (scale.flatMap (fun size => ',' :: decimal size) ++ ')' :: rest) =
        scale.flatMap (fun size => [.sign .comma, sizeToken size]) ++
          .sign .rightParen :: lex rest := by
    intro scale
    induction scale with
    | nil => exact lex_rightParen rest
    | cons size scale ih =>
      rw [flatMap_cons, append_assoc, cons_append, lex_comma,
        lex_integer (isInteger_decimal size) (detached scale), ih]
      simp [sizeToken]
  cases sizes with
  | nil => rfl
  | cons size scale =>
    simp only [sizesText, cons_append, append_assoc, nil_append]
    rw [lex_leftParen, lex_integer (isInteger_decimal size) (detached scale), scales scale]
    simp [sizesTokens, sizeToken]

theorem lex_type (type : CoercedType) (rest : List Char) :
    lex (getUserVisibleTypeString type ++ (sizesText type.sizes ++ rest)) =
      typeBody type ++ lex (typeLast type ++ rest) := by
  have zoned : ∀ (word : List Char) (token : Token), isWord word → wordToken word = token →
      lex (word ++ (" WITH TIME ZONE".toList ++ rest)) =
        token :: .keyword .WITH_TIME_ZONE :: lex rest := by
    intro word token isWord same
    have separated : Separated (" WITH TIME ZONE".toList ++ rest) := separated_space (by decide)
    rw [lex_word isWord separated.toWordBoundary, lex_withTimeZone, same]
  have sized : isWord (getUserVisibleTypeString type) → type.sizes ≠ [] →
      lex (getUserVisibleTypeString type ++ (sizesText type.sizes ++ rest)) =
        wordToken (getUserVisibleTypeString type) :: (sizesTokens type.sizes ++ lex rest) := by
    intro isWord nonempty
    have boundary : WordBoundary (sizesText type.sizes ++ rest) := by
      obtain ⟨size, scale, same⟩ := exists_cons_of_ne_nil nonempty
      rw [same]
      exact wordBoundary_cons (by decide) (by decide)
    rw [lex_word isWord boundary, lex_sizesText]
  cases type with
  | dateTime type =>
    cases type with
    | date | time | timestamp => rfl
    | timeWithTimeZone => exact zoned "TIME".toList _ (by decide) (by decide)
    | timestampWithTimeZone => exact zoned "TIMESTAMP".toList _ (by decide) (by decide)
  | boolean => rfl
  | integer size | numeric size | string size =>
    cases size with
    | none => rfl
    | some size => exact sized rfl (cons_ne_nil _ _)

theorem isWord_typeLast (type : CoercedType) : typeLast type = [] ∨ isWord (typeLast type) := by
  cases type with
  | dateTime type => cases type <;> decide
  | boolean => decide
  | integer size | numeric size | string size =>
    cases size <;> first | exact .inl rfl | exact .inr (by decide)

/-! ## Operators -/

section

variable (rest : List Char) (operation : BinaryOperation)

theorem lex_unaryOperator (operation : UnaryOperation) :
    lex (getUserVisibleUnaryOperatorString operation ++ ' ' :: rest) =
      unaryTokens operation ++ lex rest := by
  have sign : ∀ (letter : Char) (token : Token),
      nextLexeme (letter :: ' ' :: rest) = some (some token, ' ' :: rest) →
      lex (letter :: ' ' :: rest) = token :: lex rest := by
    intro letter token step
    rw [lex_token step, lex_space]
  cases operation with
  | forceNum => exact sign '+' _ rfl
  | negative => exact sign '-' _ rfl
  | booleanNot => exact lex_word_space (by decide) (by decide) rest

/-- Two words before a space. -/
theorem lex_twoWords (first second : List Char) (words : isWord first ∧ isWord second)
    (alone : beginsNoPhrase first ∧ beginsNoPhrase second) :
    lex (first ++ ' ' :: (second ++ ' ' :: rest)) =
      wordToken first :: wordToken second :: lex rest := by
  rw [lex_word_space words.1 alone.1, lex_word_space words.2 alone.2]

theorem lex_binaryOperator :
    lex (' ' :: (getUserVisibleBinaryOperatorString operation ++ ' ' :: rest)) =
      binaryTokens operation ++ lex rest := by
  have sign : ∀ (text : List Char) (token : Token),
      nextLexeme (text ++ ' ' :: rest) = some (some token, ' ' :: rest) →
      lex (text ++ ' ' :: rest) = token :: lex rest := by
    intro text token step
    rw [lex_token step, lex_space]
  rw [lex_space]
  cases operation with
  | concat => exact (lex_token rfl).trans (congrArg _ (sign "|".toList _ rfl))
  | booleanRegexInsensitive => exact (lex_token rfl).trans (congrArg _ (sign "*".toList _ rfl))
  | booleanOr | booleanAnd | booleanRegexSensitiveLike | booleanRegexInsensitiveLike =>
    exact lex_word_space (by decide) (by decide) rest
  | booleanRegexSensitiveSimilarto =>
    exact lex_twoWords rest "SIMILAR".toList "TO".toList (by decide) (by decide)
  | _ => exact sign _ _ rfl

variable (negated : Bool)

theorem lex_isOperator :
    lex ((if negated then " IS NOT ".toList else " IS ".toList) ++ rest) =
      isTokens negated ++ lex rest := by
  cases negated with
  | false => exact (lex_space _).trans (@lex_word_space "IS".toList (by decide) (by decide) rest)
  | true =>
    exact (lex_space _).trans (lex_twoWords rest "IS".toList "NOT".toList (by decide) (by decide))

theorem lex_inOperator :
    lex ((if negated then " NOT IN ".toList else " IN ".toList) ++ rest) =
      inTokens negated ++ lex rest := by
  cases negated with
  | false => exact (lex_space _).trans (@lex_word_space "IN".toList (by decide) (by decide) rest)
  | true =>
    exact (lex_space _).trans (lex_twoWords rest "NOT".toList "IN".toList (by decide) (by decide))

theorem separated_isOperator :
    Separated ((if negated then " IS NOT ".toList else " IS ".toList) ++ rest) := by
  cases negated <;> exact separated_space (by decide)

theorem separated_inOperator :
    Separated ((if negated then " NOT IN ".toList else " IN ".toList) ++ rest) := by
  cases negated <;> exact separated_space (by decide)

theorem separated_binaryOperator :
    Separated (' ' :: (getUserVisibleBinaryOperatorString operation ++ ' ' :: rest)) := by
  cases operation <;> exact separated_space (by decide)

end

/-! ## Statements -/

/-- The lexer reads the text of a statement up to its last word. -/
structure Lexes (statement : SqlStatement) : Prop where
  isWord : lastWord statement = [] ∨ isWord (lastWord statement)
  upToLast : ∀ rest, (lastWord statement = [] → Detached rest) →
    lex (emitCheckConstraint statement ++ rest) =
      bodyTokens statement ++ lex (lastWord statement ++ rest)

/-- The lexer reads the statement, when there is one. -/
def LexesPointer : SqlPointer → Prop
  | .null => True
  | .pointsTo statement => Lexes statement

/-- The lexer reads the cells of a list. -/
def LexesCells (list : SqlColumnList) : Prop :=
  ∀ rest, Separated rest → lex (emitCells list ++ rest) = cellTokens list ++ lex rest

/-- The lexer reads the branches of a CASE, and the first WHEN with the word before it. -/
def LexesBranches (branches : SqlCaseBranch) : Prop :=
  ∀ word rest, (word = [] ∨ isWord word) → Separated rest →
    lex (word ++ (emitCaseBranches branches ++ rest)) =
      wordToken (word ++ "WHEN".toList) :: (branchTokens branches ++ lex rest)

namespace Lexes

variable {statement left right : SqlStatement}

theorem separated (lexes : Lexes statement) (separated : Separated rest) :
    lex (emitCheckConstraint statement ++ rest) = tokens statement ++ lex rest := by
  rw [lexes.upToLast rest fun _ => separated.toDetached,
    lex_wordTokens lexes.isWord separated.toWordBoundary, tokens, append_assoc]

/-- A text that does not end in a word. -/
theorem of_closed (closed : lastWord statement = [])
    (all : ∀ rest, lex (emitCheckConstraint statement ++ rest) = bodyTokens statement ++ lex rest) :
    Lexes statement := by
  refine ⟨.inl closed, fun rest _ => ?_⟩
  rw [all rest, closed, nil_append]

theorem rightParen (lexes : Lexes statement) (rest : List Char) :
    lex (emitCheckConstraint statement ++ ')' :: rest) =
      tokens statement ++ .sign .rightParen :: lex rest := by
  rw [lexes.separated (separated_cons (by decide)), lex_rightParen]

theorem coerce (target : Lexes statement) (type : CoercedType) :
    Lexes (.coerce statement type) := by
  refine ⟨isWord_typeLast type, fun rest _ => ?_⟩
  have colons : Separated (':' :: ':' :: (getUserVisibleTypeString type ++
      (sizesText type.sizes ++ rest))) := separated_cons (by decide)
  change lex (emitCheckConstraint statement ++ [':', ':'] ++ getUserVisibleTypeString type ++
    sizesText type.sizes ++ rest) = _
  simp only [cons_append, append_assoc, nil_append]
  rw [target.separated colons, lex_colon, lex_colon, lex_type]
  simp [bodyTokens, tokens, lastWord]

theorem unary (operand : Lexes statement) (operation : UnaryOperation) :
    Lexes (.unary operation statement) := by
  refine of_closed rfl fun rest => ?_
  change lex ('(' :: getUserVisibleUnaryOperatorString operation ++
    ' ' :: emitCheckConstraint statement ++ [')'] ++ rest) = _
  simp only [cons_append, append_assoc]
  rw [lex_leftParen, lex_unaryOperator, operand.rightParen]
  simp [bodyTokens, tokens]

theorem binary (left_ : Lexes left) (right_ : Lexes right) (operation : BinaryOperation) :
    Lexes (.binary operation left right) := by
  refine of_closed rfl fun rest => ?_
  change lex ('(' :: emitCheckConstraint left ++
    ' ' :: getUserVisibleBinaryOperatorString operation ++
    ' ' :: emitCheckConstraint right ++ [')'] ++ rest) = _
  simp only [cons_append, append_assoc]
  rw [lex_leftParen, left_.separated (separated_binaryOperator _ operation),
    lex_binaryOperator, right_.rightParen]
  simp [bodyTokens, tokens]

theorem booleanIs (operand : Lexes statement) (negated : Bool) (primary : BooleanPrimary) :
    Lexes (.booleanIs negated statement primary) := by
  refine of_closed rfl fun rest => ?_
  have closed : WordBoundary (')' :: rest) := wordBoundary_cons (by decide) (by decide)
  have isWord : Constraint.isWord primary.text := by
    rcases primary with _ | _ | _ | _ <;> decide
  change lex ('(' :: emitCheckConstraint statement ++
    (if negated then " IS NOT ".toList else " IS ".toList) ++ primary.text ++ [')'] ++ rest) = _
  simp only [cons_append, append_assoc, nil_append]
  rw [lex_leftParen, operand.separated (separated_isOperator _ negated), lex_isOperator,
    lex_wordTokens (.inr isWord) closed, lex_rightParen]
  simp [bodyTokens, tokens]

variable {list : SqlColumnList} {value optionalElse : SqlPointer}

theorem booleanIn (operand : Lexes statement) (cells : LexesCells list)
    (negated : Bool) : Lexes (.booleanIn negated statement list) := by
  refine of_closed rfl fun rest => ?_
  change lex ('(' :: emitCheckConstraint statement ++
    (if negated then " NOT IN ".toList else " IN ".toList) ++ '(' :: emitCells list ++
    [')', ')'] ++ rest) = _
  simp only [cons_append, append_assoc]
  rw [lex_leftParen, operand.separated (separated_inOperator _ negated), lex_inOperator,
    lex_leftParen, cells _ (separated_cons (by decide)), lex_rightParen, lex_rightParen]
  simp [bodyTokens, tokens]

theorem functionCall {parameters : SqlColumnList} (lexable : NameLexable name)
    (cells : LexesCells parameters) : Lexes (.functionCall name parameters) := by
  refine of_closed rfl fun rest => ?_
  change lex (nameText name ++ '(' :: emitCells parameters ++ [')'] ++ rest) = _
  simp only [cons_append, append_assoc]
  rw [lex_callee lexable, cells _ (separated_cons (by decide)), lex_rightParen]
  simp [bodyTokens]

theorem parmlessCall (lexable : NameLexable name) : Lexes (.parmlessCall name) := by
  refine of_closed rfl fun rest => ?_
  change lex (nameText name ++ ['(', ')'] ++ rest) = _
  simp only [cons_append, append_assoc]
  rw [lex_callee lexable, lex_rightParen]
  simp [bodyTokens]

/-- A keyword that is called. -/
theorem of_keywordCall (word : List Char) {keyword : Keyword} (isWord : Constraint.isWord word)
    (same : wordToken word = .keyword keyword) (closed : lastWord statement = [])
    (text : emitCheckConstraint statement = word ++ ['('] ++ emitCells list ++ [')'])
    (body : bodyTokens statement =
      .keyword keyword :: .sign .leftParen :: cellTokens list ++ [.sign .rightParen])
    (cells : LexesCells list) : Lexes statement := by
  refine of_closed closed fun rest => ?_
  have boundary : WordBoundary ('(' :: (emitCells list ++ ')' :: rest)) :=
    wordBoundary_cons (by decide) (by decide)
  rw [text, body]
  simp only [append_assoc, nil_append, cons_append]
  rw [lex_word isWord boundary, lex_leftParen, cells _ (separated_cons (by decide)),
    lex_rightParen, same]

variable {arguments : SqlColumnList}

theorem coalesce (cells : LexesCells arguments) : Lexes (.coalesce arguments) :=
  of_keywordCall "COALESCE".toList (by decide) (by decide) rfl rfl rfl cells

theorem greatest (cells : LexesCells arguments) : Lexes (.greatest arguments) :=
  of_keywordCall "GREATEST".toList (by decide) (by decide) rfl rfl rfl cells

theorem least (cells : LexesCells arguments) : Lexes (.least arguments) :=
  of_keywordCall "LEAST".toList (by decide) (by decide) rfl rfl rfl cells

theorem nullIf (left_ : Lexes left) (right_ : Lexes right) : Lexes (.nullIf left right) := by
  refine of_closed rfl fun rest => ?_
  have boundary : WordBoundary ('(' :: (emitCheckConstraint left ++
      ',' :: (emitCheckConstraint right ++ ')' :: rest))) :=
    wordBoundary_cons (by decide) (by decide)
  have same : wordToken "NULLIF".toList = .keyword .NULLIF := by decide
  change lex ("NULLIF".toList ++ ['('] ++ emitCheckConstraint left ++
    ',' :: emitCheckConstraint right ++
    [')'] ++ rest) = _
  simp only [cons_append, append_assoc, nil_append]
  rw [lex_word (by decide) boundary, same, lex_leftParen,
    left_.separated (separated_cons (by decide)), lex_comma, right_.rightParen]
  simp [bodyTokens, tokens]

/-! ## Branches -/

theorem emitCaseBranches_last (condition value : SqlStatement) :
    emitCaseBranches (.last condition value) = "WHEN ".toList ++
      (emitCheckConstraint condition ++ (" THEN ".toList ++ emitCheckConstraint value)) := by
  change "WHEN ".toList ++ emitCheckConstraint condition ++ " THEN ".toList ++
    emitCheckConstraint value = _
  simp only [append_assoc]

theorem emitCaseBranches_cons (condition value : SqlStatement) (next : SqlCaseBranch) :
    emitCaseBranches (.cons condition value next) = "WHEN ".toList ++
      (emitCheckConstraint condition ++ (" THEN ".toList ++
        (emitCheckConstraint value ++ emitCaseBranches next))) := by
  change "WHEN ".toList ++ emitCheckConstraint condition ++ " THEN ".toList ++
    emitCheckConstraint value ++ emitCaseBranches next = _
  simp only [append_assoc]

/-- The branches of a CASE begin with a WHEN. -/
theorem emitCaseBranches_eq (branches : SqlCaseBranch) :
    ∃ behind, emitCaseBranches branches = "WHEN ".toList ++ behind := by
  cases branches with
  | last condition value => exact ⟨_, emitCaseBranches_last condition value⟩
  | cons condition value next => exact ⟨_, emitCaseBranches_cons condition value next⟩

/-- The WHEN of a branch with the word before it. -/
theorem lex_when (isWord : word = [] ∨ Constraint.isWord word) (rest : List Char) :
    lex (word ++ ("WHEN ".toList ++ rest)) = wordToken (word ++ "WHEN".toList) :: lex rest := by
  have whole : Constraint.isWord (word ++ "WHEN".toList) := by
    obtain rfl | isWord := isWord
    · decide
    · obtain ⟨letter, others, rfl⟩ : ∃ letter others, word = letter :: others := by
        cases word with
        | nil => simp [Constraint.isWord] at isWord
        | cons letter others => exact ⟨letter, others, rfl⟩
      have parts : "WHEN".toList.all isIdentifierPart := by decide
      simp only [Constraint.isWord, cons_append, all_cons, all_append, Bool.and_eq_true] at isWord ⊢
      exact ⟨isWord.1, isWord.2.1, isWord.2.2, parts⟩
  have alone : beginsNoPhrase (word ++ "WHEN".toList) := by
    rw [beginsNoPhrase, all_eq_true]
    intro phrase member
    have ends : ∀ phrase ∈ phrases, phrase.1.toList.getLast? ≠ some 'N' := by decide
    rw [bne_iff_ne]
    intro same
    apply ends phrase member
    have upperN : 'N'.toUpper = 'N' := by decide
    simp [same, upper]
  have text : word ++ ("WHEN ".toList ++ rest) = (word ++ "WHEN".toList) ++ ' ' :: rest := by simp
  rw [text, lex_word_space whole alone]

/-- The condition of a branch and the THEN behind it. -/
theorem lex_then (condition : Lexes statement) (rest : List Char) :
    lex (emitCheckConstraint statement ++ (" THEN ".toList ++ rest)) =
      tokens statement ++ .keyword .THEN :: lex rest := by
  have separated : Separated (" THEN ".toList ++ rest) := separated_space (by decide)
  have keyword : lex (" THEN ".toList ++ rest) = .keyword .THEN :: lex rest :=
    (lex_space _).trans (@lex_word_space "THEN".toList (by decide) (by decide) rest)
  rw [condition.separated separated, keyword]

theorem last_branch (left_ : Lexes left) (right_ : Lexes right) :
    LexesBranches (.last left right) := by
  intro word rest isWord separated
  rw [emitCaseBranches_last]
  simp only [append_assoc]
  rw [lex_when isWord, lex_then left_, right_.separated separated]
  simp [branchTokens, tokens]

theorem cons_branch {next : SqlCaseBranch} (left_ : Lexes left) (right_ : Lexes right)
    (branches : LexesBranches next) : LexesBranches (.cons left right next) := by
  intro word rest isWord separated
  have detached : Detached (emitCaseBranches next ++ rest) := by
    obtain ⟨behind, same⟩ := emitCaseBranches_eq next
    rw [same]
    exact ⟨by rintro _ ⟨⟩; decide, by simp, by simp, by simp⟩
  rw [emitCaseBranches_cons]
  simp only [append_assoc]
  -- The WHEN of the next branch is read with the last word of the value.
  rw [lex_when isWord, lex_then left_, right_.upToLast _ fun _ => detached,
    branches _ rest right_.isWord separated]
  simp [branchTokens, tokens]

theorem lex_caseValue (lexes : LexesPointer value) (separated : Separated (' ' :: rest)) :
    lex (emitCaseValue value ++ rest) = caseValueTokens value ++ lex rest := by
  cases value with
  | null => rfl
  | pointsTo statement =>
    change lex (emitCheckConstraint statement ++ [' '] ++ rest) = _
    rw [append_assoc]
    exact Lexes.separated lexes separated

theorem lex_else (lexes : LexesPointer optionalElse) (separated : Separated rest) :
    lex (emitElse optionalElse ++ rest) = elseTokens optionalElse ++ lex rest := by
  cases optionalElse with
  | null => rfl
  | pointsTo statement =>
    change lex (' ' :: ("ELSE".toList ++ ' ' :: (emitCheckConstraint statement ++ rest))) = _
    rw [lex_space, lex_word_space (by decide) (by decide), Lexes.separated lexes separated]
    rfl

theorem cas {branches : SqlCaseBranch}
    (lexesValue : LexesPointer value) (lexesBranches : LexesBranches branches)
    (lexesElse : LexesPointer optionalElse) :
    Lexes (.cas value branches optionalElse) := by
  refine ⟨.inr (show Constraint.isWord "END".toList by decide), fun rest _ => ?_⟩
  have keyword : wordToken "CASE".toList = .keyword .CASE := by decide
  have when : wordToken ([] ++ "WHEN".toList) = .keyword .WHEN := by decide
  have beforeBranches : Separated (' ' :: (emitCaseBranches branches ++
      (emitElse optionalElse ++ ' ' :: ("END".toList ++ rest)))) := by
    obtain ⟨behind, same⟩ := emitCaseBranches_eq branches
    rw [same]
    exact separated_space (by decide)
  have beforeEnd : Separated (' ' :: ("END".toList ++ rest)) := separated_space (by decide)
  have beforeElse : Separated (emitElse optionalElse ++ ' ' :: ("END".toList ++ rest)) := by
    cases optionalElse with
    | null => exact beforeEnd
    | pointsTo statement => exact separated_space (by decide)
  have inside := lexesBranches [] _ (.inl rfl) beforeElse
  rw [nil_append] at inside
  change lex ("CASE".toList ++ [' '] ++ emitCaseValue value ++ emitCaseBranches branches ++
    emitElse optionalElse ++ (' ' :: "END".toList) ++ rest) = _
  simp only [append_assoc, cons_append, nil_append]
  rw [lex_word_space (by decide) (by decide), keyword, lex_caseValue lexesValue beforeBranches,
    inside, when, lex_else lexesElse beforeEnd, lex_space]
  simp [bodyTokens, lastWord]

end Lexes

/-! ## All statements -/

section

variable (validateDateTimeValue : DateTimeType → DateTimeFormat → List Char → Bool)

/-- A literal, a keyword or the name of a column. -/
theorem lexes_value {value : SqlValue} (read : LeafRead validateDateTimeValue (.value value))
    (printable : LeafPrintable (.value value)) : Lexes (.value value) := by
  cases value with
  | booleanPrimary primary =>
    refine ⟨.inr ?_, fun rest _ => rfl⟩
    rcases primary with _ | _ | _ | _ <;> decide
  | literal type text =>
    refine ⟨.inl rfl, fun rest detached => ?_⟩
    cases type with
    | stringLiteral =>
      change lex ('\'' :: text ++ ['\''] ++ rest) = _
      rw [append_assoc]
      exact lex_singleString read printable (detached rfl).noQuote
    | numericLiteral => exact lex_numeric read (detached rfl)
    | integerLiteral => exact lex_integer read (detached rfl)
  | dateTimeLiteral type format text =>
    refine ⟨.inl rfl, fun rest detached => ?_⟩
    change lex (type.words.1 ++ formatText format ++ type.words.2 ++ '\'' :: text ++ ['\''] ++
      rest) = _
    simp only [cons_append, append_assoc, nil_append]
    rw [lex_dateTimeType, lex_singleString read.1 printable (detached rfl).noQuote]
    simp [bodyTokens, valueBody, lastWord]
  | columnReference name =>
    have lexable := printable.1.lexable
    exact ⟨isWord_nameLast lexable, fun rest detached => lex_name lexable detached⟩

theorem lexable_of_parmlessCall (printable : LeafPrintable (.parmlessCall name)) :
    NameLexable name := by
  obtain path | ⟨unquoted, isWord, -⟩ := printable
  · exact path.lexable
  · exact lexable_of_isWord unquoted isWord

/-- Leaves that were read and are written as they are read. -/
def LeavesPrintable (list : List SqlStatement) : Prop :=
  ∀ leaf ∈ list, LeafRead validateDateTimeValue leaf ∧ LeafPrintable leaf

variable {validateDateTimeValue}

mutual

/-- The lexer reads the text of every statement whose leaves are written as they are read. -/
theorem lexes (statement : SqlStatement)
    (printable : LeavesPrintable validateDateTimeValue (leaves statement)) : Lexes statement := by
  cases statement with
  | value value =>
    obtain ⟨read, written⟩ := printable _ mem_cons_self
    exact lexes_value validateDateTimeValue read written
  | coerce target type => exact (lexes target printable).coerce type
  | unary operation operand => exact (lexes operand printable).unary operation
  | binary operation left right =>
    obtain ⟨leftPrintable, rightPrintable⟩ := forall_mem_append.1 printable
    exact (lexes left leftPrintable).binary (lexes right rightPrintable) operation
  | booleanIs negated operand primary => exact (lexes operand printable).booleanIs negated primary
  | booleanIn negated operand list =>
    obtain ⟨operandPrintable, listPrintable⟩ := forall_mem_append.1 printable
    exact (lexes operand operandPrintable).booleanIn (lexesCells list listPrintable) negated
  | functionCall name parameters =>
    obtain ⟨callee, parametersPrintable⟩ := forall_mem_cons.1 printable
    exact .functionCall callee.2.lexable (lexesCells parameters parametersPrintable)
  | parmlessCall name =>
    exact .parmlessCall (lexable_of_parmlessCall (printable _ mem_cons_self).2)
  | coalesce arguments => exact .coalesce (lexesCells arguments printable)
  | greatest arguments => exact .greatest (lexesCells arguments printable)
  | least arguments => exact .least (lexesCells arguments printable)
  | nullIf left right =>
    obtain ⟨leftPrintable, rightPrintable⟩ := forall_mem_append.1 printable
    exact (lexes left leftPrintable).nullIf (lexes right rightPrintable)
  | cas value branches optionalElse =>
    obtain ⟨valuePrintable, others⟩ := forall_mem_append.1 printable
    obtain ⟨branchesPrintable, elsePrintable⟩ := forall_mem_append.1 others
    exact .cas (lexesPointer value valuePrintable) (lexesBranches branches branchesPrintable)
      (lexesPointer optionalElse elsePrintable)

theorem lexesPointer (pointer : SqlPointer)
    (printable : LeavesPrintable validateDateTimeValue (leavesOfPointer pointer)) :
    LexesPointer pointer := by
  cases pointer with
  | null => trivial
  | pointsTo statement => exact lexes statement printable

theorem lexesCells (list : SqlColumnList)
    (printable : LeavesPrintable validateDateTimeValue (leavesOfCells list)) :
    LexesCells list := by
  cases list with
  | last value => exact fun rest separated => (lexes value printable).separated separated
  | cons value next =>
    intro rest separated
    obtain ⟨valuePrintable, nextPrintable⟩ := forall_mem_append.1 printable
    change lex (emitCheckConstraint value ++ ',' :: ' ' :: emitCells next ++ rest) = _
    simp only [cons_append, append_assoc]
    rw [(lexes value valuePrintable).separated (separated_cons (by decide)), lex_comma,
      lex_space, lexesCells next nextPrintable rest separated]
    simp [cellTokens, tokens]

theorem lexesBranches (branches : SqlCaseBranch)
    (printable : LeavesPrintable validateDateTimeValue (leavesOfBranches branches)) :
    LexesBranches branches := by
  cases branches with
  | last condition value =>
    obtain ⟨conditionPrintable, valuePrintable⟩ := forall_mem_append.1 printable
    exact Lexes.last_branch (lexes condition conditionPrintable) (lexes value valuePrintable)
  | cons condition value next =>
    obtain ⟨conditionPrintable, others⟩ := forall_mem_append.1 printable
    obtain ⟨valuePrintable, nextPrintable⟩ := forall_mem_append.1 others
    exact Lexes.cons_branch (lexes condition conditionPrintable) (lexes value valuePrintable)
      (lexesBranches next nextPrintable)

end

/-- The tokens of the text of a statement. -/
theorem lex_emitCheckConstraint {statement : SqlStatement}
    (printable : LeavesPrintable validateDateTimeValue (leaves statement)) :
    lex (emitCheckConstraint statement) = tokens statement := by
  have whole := (lexes statement printable).separated separated_nil
  rw [append_nil] at whole
  rw [whole, show lex [] = [] from rfl, append_nil]

end

end Octo.Constraint
