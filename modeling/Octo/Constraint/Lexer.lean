import Octo.Constraint.Expression
import Octo.Foundation.Scanner

/-!
# The lexer

The tokens of a text are found as the rules of the lexer find them: the longest match wins, and of
two matches of one length the earlier rule. Keywords are read in any case. A quote inside quotes is
written twice. A text that ends inside quotes or a comment ends there. The names of M functions and
the commands that start with a backslash stand in no expression: their letters are invalid tokens
here.
-/
namespace Octo.Constraint

open Octo.Foundation List Option

/-! ## Tokens -/

/-- The keywords that a CHECK constraint is read with. All others are one token here. -/
inductive Keyword where
  | AND | AS | BETWEEN | BIGINT | BOOLEAN | CASE | CAST | CHAR | CHARACTER | COALESCE | DATE | DEC
  | DECIMAL | ELSE | END | FALSE | FILEMAN | GREATEST | HOROLOG | ILIKE | IN | INT | INT2 | INT4
  | INT8 | INTEGER | IS | LEAST | LIKE | NAME | NOT | NULL | NULLIF | NUMERIC | OR | REGCLASS
  | REGPROC | SIMILAR | SMALLINT | THEN | TIME | TIMESTAMP | TO | TRUE | TRUNCATE | UNKNOWN
  | VARCHAR | VARYING | WHEN | WITHOUT_TIME_ZONE | WITH_TIME_ZONE | ZHOROLOG | ZUT | OTHER
deriving DecidableEq, Repr

/-- The tokens of one or two signs. -/
inductive Sign where
  | comma | leftParen | rightParen | semicolon | plus | minus | asterisk | solidus | percent
  | period | equals | lessThanOrEquals | greaterThanOrEquals | notEquals | lessThan | greaterThan
  | pipe | tilde | exclamation | leftBracket | rightBracket | colon | invalid
deriving DecidableEq, Repr

/-- The tokens of the lexer with their values. -/
inductive Token where
  | keyword (keyword : Keyword)
  | sign (sign : Sign)
  | literal (type : LiteralType) (text : List Char)
  | emptyString
  | doubleQuoteLiteral (text : List Char)
  | identifierBackTick (text : List Char)
  | identifierAlone (text : List Char)
  | parenlessFunction (text : List Char)
deriving DecidableEq, Repr

/-! ## Words -/

/-- The keywords that begin with a letter. -/
def keywordsFrom : Char → List (String × Keyword)
  | 'A' => [("ADVANCE", .OTHER), ("AIMTYPE", .OTHER), ("ALL", .OTHER), ("AND", .AND),
      ("ANY", .OTHER), ("ARRAY", .OTHER), ("AS", .AS), ("ASC", .OTHER), ("AVG", .OTHER)]
  | 'B' => [("BEG", .OTHER), ("BETWEEN", .BETWEEN), ("BIGINT", .BIGINT), ("BOOL", .BOOLEAN),
      ("BOOLEAN", .BOOLEAN), ("BY", .OTHER)]
  | 'C' => [("CASCADE", .OTHER), ("CASE", .CASE), ("CAST", .CAST), ("CHAR", .CHAR),
      ("CHARACTER", .CHARACTER), ("CHECK", .OTHER), ("COALESCE", .COALESCE), ("COLLATE", .OTHER),
      ("COMMIT", .OTHER), ("CONSTRAINT", .OTHER), ("CORRESPONDING", .OTHER), ("COUNT", .OTHER),
      ("CREATE", .OTHER), ("CROSS", .OTHER)]
  | 'D' => [("DATE", .DATE), ("DEALLOCATE", .OTHER), ("DEC", .DEC), ("DECIMAL", .DECIMAL),
      ("DEFAULT", .OTHER), ("DELETE", .OTHER), ("DELIM", .OTHER), ("DESC", .OTHER),
      ("DISCARD", .OTHER), ("DISTINCT", .OTHER), ("DROP", .OTHER)]
  | 'E' => [("ELSE", .ELSE), ("END", .END), ("ENDPOINT", .OTHER), ("EXCEPT", .OTHER),
      ("EXISTS", .OTHER), ("EXTRACT", .OTHER), ("EXIT", .OTHER)]
  | 'F' => [("FROM", .OTHER), ("FULL", .OTHER), ("FUNCTION", .OTHER), ("FILEMAN", .FILEMAN),
      ("FALSE", .FALSE)]
  | 'G' => [("GLOBAL", .OTHER), ("GREATEST", .GREATEST), ("GROUP", .OTHER)]
  | 'H' => [("HAVING", .OTHER), ("HOROLOG", .HOROLOG)]
  | 'I' => [("IF", .OTHER), ("ILIKE", .ILIKE), ("IN", .IN), ("INDEX", .OTHER), ("INNER", .OTHER),
      ("INSERT", .OTHER), ("INT", .INT), ("INT2", .INT2), ("INT4", .INT4), ("INT8", .INT8),
      ("INTEGER", .INTEGER), ("INTERSECT", .OTHER), ("INTO", .OTHER), ("IS", .IS)]
  | 'J' => [("JOIN", .OTHER)]
  | 'K' => [("KEEPDATA", .OTHER), ("KEY", .OTHER)]
  | 'L' => [("LEAST", .LEAST), ("LEFT", .OTHER), ("LIKE", .LIKE), ("LIMIT", .OTHER)]
  | 'M' => [("MAX", .OTHER), ("MIN", .OTHER)]
  | 'N' => [("NATURAL", .OTHER), ("NAME", .NAME), ("NOT", .NOT), ("NUM", .OTHER),
      ("NULLIF", .NULLIF), ("NUMERIC", .NUMERIC), ("NULL", .NULL)]
  | 'O' => [("ON", .OTHER), ("OR", .OR), ("ORDER", .OTHER), ("OUTER", .OTHER), ("OVER", .OTHER)]
  | 'P' => [("PACK", .OTHER), ("PARTITION", .OTHER), ("PIECE", .OTHER), ("PREPARE", .OTHER),
      ("PRIMARY", .OTHER)]
  | 'Q' => [("QUIT", .OTHER)]
  | 'R' => [("READONLY", .OTHER), ("READWRITE", .OTHER), ("REGCLASS", .REGCLASS),
      ("REGPROC", .REGPROC), ("RESTRICT", .OTHER), ("RETURNS", .OTHER), ("RIGHT", .OTHER)]
  | 'S' => [("SELECT", .OTHER), ("SET", .OTHER), ("SIMILAR", .SIMILAR), ("SHOW", .OTHER),
      ("SMALLINT", .SMALLINT), ("SOME", .OTHER), ("START", .OTHER), ("STARTINCLUDE", .OTHER),
      ("SUM", .OTHER)]
  | 'T' => [("TABLE", .OTHER), ("TEXT", .VARCHAR), ("THEN", .THEN), ("TIME", .TIME),
      ("TIMESTAMP", .TIMESTAMP), ("TO", .TO), ("TRUNCATE", .TRUNCATE), ("TRUE", .TRUE)]
  | 'U' => [("UNION", .OTHER), ("UNIQUE", .OTHER), ("UNKNOWN", .UNKNOWN), ("UNPACK", .OTHER),
      ("UPDATE", .OTHER), ("USING", .OTHER)]
  | 'V' => [("VALUES", .OTHER), ("VARCHAR", .VARCHAR), ("VARYING", .VARYING), ("VIEW", .OTHER)]
  | 'W' => [("WHEN", .WHEN), ("WHERE", .OTHER)]
  | 'X' => [("XREFS", .OTHER)]
  | 'Z' => [("ZHOROLOG", .ZHOROLOG), ("ZUT", .ZUT)]
  | _ => []

/-- The functions that are called without parentheses. -/
def parenlessFunctions : List String :=
  ["CURRENT_CATALOG", "CURRENT_ROLE", "CURRENT_USER", "CURRENT_SCHEMA", "SESSION_USER", "USER",
    "LOCALTIME", "LOCALTIMESTAMP", "CURRENT_TIME", "CURRENT_TIMESTAMP"]

/-- The keyword that a word in capital letters is. -/
def lookupKeyword (word : List Char) : Option Keyword :=
  ((keywordsFrom (word.headD ' ')).find? fun entry => entry.1.toList = word).map Prod.snd

/-- `TOLOWER`. -/
def lower (text : List Char) : List Char :=
  text.map Char.toLower

/-- Capital letters, for the rules that read letters in any case. -/
def upper (text : List Char) : List Char :=
  text.map Char.toUpper

/-- The token of a word: a keyword, a function without parentheses or an identifier. -/
def wordToken (word : List Char) : Token :=
  match lookupKeyword (upper word) with
  | some keyword => .keyword keyword
  | none =>
    if parenlessFunctions.any fun function => function.toList = upper word then
      .parenlessFunction (lower word)
    else .identifierAlone word

/-- `[a-zA-Z_]`. -/
def isIdentifierStart (letter : Char) : Bool :=
  letter.isAlpha || letter == '_'

/-- `[a-zA-Z0-9_$^]`. -/
def isIdentifierPart (letter : Char) : Bool :=
  letter.isAlpha || letter.isDigit || letter == '_' || letter == '$' || letter == '^'

/-- `[ \t\n]`, the blanks inside a keyword of several words. -/
def isBlank (letter : Char) : Bool :=
  letter == ' ' || letter == '\t' || letter == '\n'

/-- `[ \t\r\n]`. -/
def isSpace (letter : Char) : Bool :=
  isBlank letter || letter == '\r'

/-- What is left of a text behind a word that it begins with. -/
def matchWord : List Char → List Char → Option (List Char)
  | [], text => some text
  | expected :: word, letter :: text =>
    if letter.toUpper = expected then matchWord word text else none
  | _ :: _, [] => none

/-- What is left of a text behind words that it begins with, each after blanks. -/
def matchWords : List String → List Char → Option (List Char)
  | [], text => some text
  | word :: words, letter :: text =>
    if isBlank letter then
      (matchWord word.toList (text.dropWhile isBlank)).bind (matchWords words)
    else none
  | _ :: _, [] => none

/-- The keywords of several words. -/
def phrases : List (String × List String × Keyword) :=
  [("WITH", ["TIME", "ZONE"], .WITH_TIME_ZONE), ("WITHOUT", ["TIME", "ZONE"], .WITHOUT_TIME_ZONE),
    ("GENERATED", ["ALWAYS", "AS", "IDENTITY"], .OTHER),
    ("GENERATED", ["BY", "DEFAULT", "AS", "IDENTITY"], .OTHER),
    ("OVERRIDING", ["SYSTEM", "VALUE"], .OTHER), ("OVERRIDING", ["USER", "VALUE"], .OTHER)]

/-- The keyword of several words that a text begins with. -/
def matchPhrase (text : List Char) : Option (Keyword × List Char) :=
  phrases.findSome? fun phrase =>
    ((matchWord phrase.1.toList text).bind (matchWords phrase.2.1)).map (phrase.2.2, ·)

/-- A text that begins with a word. The keywords of several words are longer than their first
word. -/
def lexWord (text : List Char) : Option Token × List Char :=
  match matchPhrase text with
  | some (keyword, rest) => (some (.keyword keyword), rest)
  | none =>
    (some (wordToken (text.takeWhile isIdentifierPart)), text.dropWhile isIdentifierPart)

/-! ## Numbers, quotes, signs and comments -/

/-- A text that begins with a digit or a point. A point alone is a token of its own. -/
def lexNumber (text : List Char) : Option Token × List Char :=
  let whole := text.takeWhile Char.isDigit
  match text.dropWhile Char.isDigit with
  | '.' :: rest =>
    let fraction := rest.takeWhile Char.isDigit
    if whole = [] ∧ fraction = [] then (some (.sign .period), rest)
    else (some (.literal .numericLiteral (whole ++ '.' :: fraction)), rest.dropWhile Char.isDigit)
  | rest => (some (.literal .integerLiteral whole), rest)

/-- What stands before the quote that ends a quoted text, and what follows that quote. -/
def quoted (quote : Char) : List Char → Option (List Char × List Char)
  | [] => none
  | [letter] => if letter = quote then some ([], []) else none
  | letter :: next :: rest =>
    if letter = quote then
      if next = quote then (quoted quote rest).map fun read => (quote :: read.1, read.2)
      else some ([], next :: rest)
    else (quoted quote (next :: rest)).map fun read => (letter :: read.1, read.2)

/-- A text behind a single quote. -/
def lexSingleString (text : List Char) : Option Token × List Char :=
  match quoted '\'' text with
  | some ([], rest) => (some .emptyString, rest)
  | some (content, rest) => (some (.literal .stringLiteral content), rest)
  | none => (none, [])

/-- A text behind a double quote. -/
def lexString (text : List Char) : Option Token × List Char :=
  match quoted (Char.ofNat 34) text with
  | some (content, rest) => (some (.doubleQuoteLiteral content), rest)
  | none => (none, [])

/-- A text behind a back tick. -/
def lexBackTick (text : List Char) : Option Token × List Char :=
  match text.dropWhile (· != Char.ofNat 96) with
  | _ :: rest => (some (.identifierBackTick (text.takeWhile (· != Char.ofNat 96))), rest)
  | [] => (none, [])

/-- What follows a comment that ends with the line. -/
def skipLine (text : List Char) : List Char :=
  (text.dropWhile (· != '\n')).tail

/-- What follows a comment that ends with a mark. -/
def skipComment : List Char → List Char
  | '*' :: '/' :: rest => rest
  | _ :: rest => skipComment rest
  | [] => []

/-- A text that begins with any other letter. -/
def lexSign (letter : Char) (rest : List Char) : Option Token × List Char :=
  match letter, rest with
  | ',', rest => (some (.sign .comma), rest)
  | '(', rest => (some (.sign .leftParen), rest)
  | ')', rest => (some (.sign .rightParen), rest)
  | ';', rest => (some (.sign .semicolon), rest)
  | '+', rest => (some (.sign .plus), rest)
  | '-', '-' :: rest => (none, skipLine rest)
  | '-', rest => (some (.sign .minus), rest)
  | '#', rest => (none, skipLine rest)
  | '*', rest => (some (.sign .asterisk), rest)
  | '/', '*' :: rest => (none, skipComment rest)
  | '/', rest => (some (.sign .solidus), rest)
  | '%', rest => (some (.sign .percent), rest)
  | '=', rest => (some (.sign .equals), rest)
  | '<', '=' :: rest => (some (.sign .lessThanOrEquals), rest)
  | '<', '>' :: rest => (some (.sign .notEquals), rest)
  | '<', rest => (some (.sign .lessThan), rest)
  | '>', '=' :: rest => (some (.sign .greaterThanOrEquals), rest)
  | '>', rest => (some (.sign .greaterThan), rest)
  | '!', '=' :: rest => (some (.sign .notEquals), rest)
  | '!', rest => (some (.sign .exclamation), rest)
  | '|', rest => (some (.sign .pipe), rest)
  | '~', rest => (some (.sign .tilde), rest)
  | '[', rest => (some (.sign .leftBracket), rest)
  | ']', rest => (some (.sign .rightBracket), rest)
  | ':', rest => (some (.sign .colon), rest)
  | _, rest => (some (.sign .invalid), rest)

/-- One step of the lexer. -/
def nextLexeme : List Char → Option (Option Token × List Char)
  | [] => none
  | letter :: rest =>
    if isSpace letter then some (none, rest)
    else if isIdentifierStart letter then some (lexWord (letter :: rest))
    else if letter.isDigit || letter == '.' then some (lexNumber (letter :: rest))
    else if letter = '\'' then some (lexSingleString rest)
    else if letter = Char.ofNat 34 then some (lexString rest)
    else if letter = Char.ofNat 96 then some (lexBackTick rest)
    else some (lexSign letter rest)

/-! ## What a token takes -/

/-- The letters that a keyword takes when it stands for a name. -/
def Keyword.width : Keyword → Nat
  | .NAME => 4
  | .TO => 2
  | .TRUNCATE => 8
  | .REGCLASS => 8
  | .REGPROC => 7
  | _ => 0

/-- The letters that a token takes at least. A quote inside quotes takes two. -/
def Token.width : Token → Nat
  | .keyword word => word.width
  | .sign _ => 1
  | .literal .stringLiteral text => text.length + text.count '\'' + 2
  | .literal _ text => text.length
  | .emptyString => 2
  | .doubleQuoteLiteral text => text.length + text.count (Char.ofNat 34) + 2
  | .identifierBackTick text => text.length + 2
  | .identifierAlone text | .parenlessFunction text => text.length

/-- The letters that tokens take at least. -/
def width (tokens : List Token) : Nat :=
  (tokens.map Token.width).sum

/-- A step takes a letter at least, and all letters of its token. -/
structure Consumes (text : List Char) (step : Option Token × List Char) : Prop where
  shorter : step.2.length < text.length
  covered : width step.1.toList + step.2.length ≤ text.length

/-! ## Progress -/

variable {text rest input : List Char} {letter : Char} {keyword : Keyword}

theorem upper_of_matchWord {expected : List Char} (matched : matchWord expected text = some rest) :
    ∃ before, text = before ++ rest ∧ upper before = expected := by
  induction expected generalizing text with
  | nil =>
    simp only [matchWord, some.injEq] at matched
    exact ⟨[], matched, rfl⟩
  | cons first expected ih =>
    cases text with
    | nil => simp [matchWord] at matched
    | cons letter text =>
      simp only [matchWord] at matched
      split at matched
      case isTrue same =>
        obtain ⟨before, rfl, rfl⟩ := ih matched
        exact ⟨letter :: before, rfl, by simp [upper, same]⟩
      case isFalse => simp at matched

theorem length_of_matchWord {word : List Char} (matched : matchWord word text = some rest) :
    word.length + rest.length = text.length := by
  obtain ⟨before, rfl, rfl⟩ := upper_of_matchWord matched
  simp [upper]

theorem length_of_matchWords {words : List String} (matched : matchWords words text = some rest) :
    rest.length ≤ text.length := by
  induction words generalizing text with
  | nil =>
    simp only [matchWords, some.injEq] at matched
    simp [matched]
  | cons word words ih =>
    cases text with
    | nil => simp [matchWords] at matched
    | cons letter text =>
      simp only [matchWords] at matched
      split at matched
      · obtain ⟨behind, first, others⟩ := bind_eq_some_iff.1 matched
        have dropped := (dropWhile_sublist isBlank (l := text)).length_le
        have firstLength := length_of_matchWord first
        have othersLength := ih others
        simp only [length_cons]
        omega
      · simp at matched

theorem length_of_matchPhrase
    (matched : matchPhrase text = some (keyword, rest)) : rest.length < text.length := by
  obtain ⟨phrase, member, found⟩ := exists_of_findSome?_eq_some matched
  obtain ⟨behind, whole, same⟩ := map_eq_some_iff.1 found
  obtain ⟨middle, first, others⟩ := bind_eq_some_iff.1 whole
  obtain ⟨rfl, rfl⟩ := Prod.mk.inj same
  have nonempty : ∀ phrase ∈ phrases, 0 < phrase.1.toList.length := by decide
  have := nonempty phrase member
  have := length_of_matchWord first
  have := length_of_matchWords others
  omega

theorem width_of_mem_keywordsFrom {entry : String × Keyword}
    (member : entry ∈ keywordsFrom letter) : entry.2.width ≤ entry.1.toList.length := by
  unfold keywordsFrom at member
  split at member <;> revert entry <;> decide

theorem width_wordToken (word : List Char) : (wordToken word).width ≤ word.length := by
  unfold wordToken
  split
  case h_1 keyword found =>
    obtain ⟨entry, first, rfl⟩ := map_eq_some_iff.1 found
    have spelled : entry.1.toList = upper word := by simpa using find?_some first
    have short := width_of_mem_keywordsFrom (mem_of_find?_eq_some first)
    rw [spelled] at short
    simpa [upper, Token.width] using short
  case h_2 =>
    split <;> simp [Token.width, lower]

theorem width_of_matchPhrase
    (matched : matchPhrase text = some (keyword, rest)) : keyword.width = 0 := by
  obtain ⟨phrase, member, found⟩ := exists_of_findSome?_eq_some matched
  obtain ⟨behind, whole, same⟩ := map_eq_some_iff.1 found
  obtain ⟨rfl, rfl⟩ := Prod.mk.inj same
  have free : ∀ phrase ∈ phrases, phrase.2.2.width = 0 := by decide
  exact free phrase member

theorem isIdentifierPart_of_start (start : isIdentifierStart letter) : isIdentifierPart letter := by
  simp only [isIdentifierStart, isIdentifierPart, Bool.or_eq_true] at start ⊢
  tauto

theorem consumes_lexWord (start : isIdentifierStart letter) :
    Consumes (letter :: rest) (lexWord (letter :: rest)) := by
  unfold lexWord
  split
  case h_1 keyword behind matched =>
    have shorter := length_of_matchPhrase matched
    have free := width_of_matchPhrase matched
    exact ⟨shorter, by simpa [width, Token.width, free] using Nat.le_of_lt shorter⟩
  case h_2 =>
    have part := isIdentifierPart_of_start start
    have split := congrArg length
      (takeWhile_append_dropWhile (p := isIdentifierPart) (l := letter :: rest))
    have taken : 0 < ((letter :: rest).takeWhile isIdentifierPart).length := by
      simp [part]
    have short := width_wordToken ((letter :: rest).takeWhile isIdentifierPart)
    rw [length_append] at split
    constructor
    · dsimp only
      omega
    · simp only [width, toList_some, map_cons, map_nil, sum_cons, sum_nil]
      omega

theorem consumes_lexNumber (number : letter.isDigit ∨ letter = '.') :
    Consumes (letter :: rest) (lexNumber (letter :: rest)) := by
  have split := congrArg length
    (takeWhile_append_dropWhile (p := Char.isDigit) (l := letter :: rest))
  rw [length_append] at split
  unfold lexNumber
  dsimp only
  split
  case h_1 behind pointed =>
    have splitBehind := congrArg length
      (takeWhile_append_dropWhile (p := Char.isDigit) (l := behind))
    rw [pointed] at split
    rw [length_append] at splitBehind
    split <;> constructor <;> simp [width, Token.width] at split ⊢ <;> omega
  case h_2 notPointed =>
    have digit : letter.isDigit := by
      refine number.resolve_right ?_
      rintro rfl
      exact notPointed rest (by simp)
    have taken : 0 < ((letter :: rest).takeWhile Char.isDigit).length := by
      simp [digit]
    constructor
    · dsimp only
      omega
    · simp only [width, Token.width, toList_some, map_cons, map_nil, sum_cons, sum_nil]
      omega

/-- A quoted text takes its letters, one more for each quote inside, and the quote behind it. -/
theorem length_of_quoted {quote : Char} {content : List Char}
    (found : quoted quote text = some (content, rest)) :
    content.length + content.count quote + 1 + rest.length ≤ text.length := by
  induction text using quoted.induct quote generalizing content rest with
  | case1 => simp [quoted] at found
  | case2 | case3 => simp_all [quoted]
  | case4 rest ih =>
    simp only [quoted, if_true, map_eq_some_iff] at found
    obtain ⟨⟨inner, behind⟩, read, same⟩ := found
    obtain ⟨rfl, rfl⟩ := Prod.mk.inj same
    have := ih read
    simp only [length_cons, count_cons_self]
    omega
  | case5 next rest different =>
    simp only [quoted, if_neg different] at found
    obtain ⟨rfl, rfl⟩ := found
    simp only [length_nil, count_nil, length_cons]
    omega
  | case6 letter next rest different ih =>
    simp only [quoted, if_neg different, map_eq_some_iff] at found
    obtain ⟨⟨inner, behind⟩, read, same⟩ := found
    obtain ⟨rfl, rfl⟩ := Prod.mk.inj same
    have := ih read
    simp only [length_cons, count_cons_of_ne different] at this ⊢
    omega

theorem consumes_lexSingleString (letter : Char) (rest : List Char) :
    Consumes (letter :: rest) (lexSingleString rest) := by
  unfold lexSingleString
  split
  case h_1 behind found | h_2 content behind nonempty found =>
    have := length_of_quoted found
    constructor <;> simp [width, Token.width] at this ⊢ <;> omega
  case h_3 => constructor <;> simp [width]

theorem consumes_lexString (letter : Char) (rest : List Char) :
    Consumes (letter :: rest) (lexString rest) := by
  unfold lexString
  split
  case h_1 content behind found =>
    have := length_of_quoted found
    constructor <;> simp [width, Token.width] at this ⊢ <;> omega
  case h_2 => constructor <;> simp [width]

theorem consumes_lexBackTick (letter : Char) (rest : List Char) :
    Consumes (letter :: rest) (lexBackTick rest) := by
  have split := congrArg length
    (takeWhile_append_dropWhile (p := (· != Char.ofNat 96)) (l := rest))
  unfold lexBackTick
  split
  case h_1 tick behind found =>
    rw [found] at split
    constructor <;> simp [width, Token.width] at split ⊢ <;> omega
  case h_2 => constructor <;> simp [width]

theorem length_skipLine (text : List Char) : (skipLine text).length ≤ text.length := by
  have := (dropWhile_sublist (· != '\n') (l := text)).length_le
  simp only [skipLine, length_tail]
  omega

theorem length_skipComment (text : List Char) : (skipComment text).length ≤ text.length := by
  induction text using skipComment.induct with
  | case1 rest => simp only [skipComment, length_cons]; omega
  | case2 letter rest notEnd ih =>
    rw [skipComment]
    · simp only [length_cons]
      omega
    · exact notEnd
  | case3 => simp [skipComment]

theorem consumes_lexSign (letter : Char) (rest : List Char) :
    Consumes (letter :: rest) (lexSign letter rest) := by
  unfold lexSign
  split
  case h_6 behind =>
    have := length_skipLine behind
    constructor <;> simp [width] <;> omega
  case h_8 =>
    have := length_skipLine rest
    constructor <;> simp [width] <;> omega
  case h_10 behind =>
    have := length_skipComment behind
    constructor <;> simp [width] <;> omega
  all_goals constructor <;> simp [width, Token.width]
  all_goals omega

theorem consumes_nextLexeme {step : Option Token × List Char}
    (found : nextLexeme input = some step) : Consumes input step := by
  unfold nextLexeme at found
  split at found
  case h_1 => simp at found
  case h_2 letter rest =>
    split at found
    case isTrue =>
      obtain rfl := some.inj found
      exact ⟨by simp, by simp [width]⟩
    case isFalse =>
      split_ifs at found <;> obtain rfl := some.inj found
      case pos start => exact consumes_lexWord start
      case pos number => exact consumes_lexNumber (by simpa using number)
      case pos => exact consumes_lexSingleString letter rest
      case pos => exact consumes_lexString letter rest
      case pos => exact consumes_lexBackTick letter rest
      case neg => exact consumes_lexSign letter rest

/-- The lexer as a scanner. -/
def lexer : Scanner Char Token where
  next := nextLexeme
  progress := fun found => (consumes_nextLexeme found).shorter

/-- The tokens of a text. -/
def lex (text : List Char) : List Token :=
  lexer.tokens text

theorem lex_of_next {lexeme : Option Token} (step : nextLexeme input = some (lexeme, rest)) :
    lex input = lexeme.toList ++ lex rest :=
  show lexer.tokens input = lexeme.toList ++ lexer.tokens rest from Scanner.tokens_of_next step

theorem lex_token {token : Token} (step : nextLexeme input = some (some token, rest)) :
    lex input = token :: lex rest :=
  lex_of_next step

theorem lex_skip (step : nextLexeme input = some (none, rest)) : lex input = lex rest :=
  lex_of_next step

/-- Tokens take no more letters than their text has. -/
theorem width_lex_le (text : List Char) : width (lex text) ≤ text.length := by
  refine Scanner.sum_weight_le ?_ text
  intro input lexeme rest found
  exact (consumes_nextLexeme found).covered

end Octo.Constraint
