import Octo.Constraint.EmittedTokens

/-!
# What a statement takes

A statement that the parser returns was paid for by tokens. Every literal and every name of it was
read from a token of its shape, and a text with a quote inside has a token that takes more letters
than the text is written with. Each branch of a CASE took a WHEN, unless a BETWEEN doubled its
operand. The relation is kept by every rule of the grammar.
-/
namespace Octo.Constraint

open Octo.Dml (DateTimeFormat)
open Octo.Foundation List Nat Char

/-! ## Branches -/

mutual

/-- The branches in a statement. -/
def whens : SqlStatement → Nat
  | .value _ | .parmlessCall _ => 0
  | .coerce target _ => whens target
  | .unary _ operand => whens operand
  | .binary _ left right => whens left + whens right
  | .booleanIs _ operand _ => whens operand
  | .booleanIn _ operand list => whens operand + whensOfCells list
  | .functionCall _ parameters => whensOfCells parameters
  | .coalesce arguments | .greatest arguments | .least arguments => whensOfCells arguments
  | .nullIf left right => whens left + whens right
  | .cas value branches optionalElse =>
    whensOfPointer value + (whensOfBranches branches + whensOfPointer optionalElse)

def whensOfPointer : SqlPointer → Nat
  | .null => 0
  | .pointsTo statement => whens statement

def whensOfCells : SqlColumnList → Nat
  | .last value => whens value
  | .cons value next => whens value + whensOfCells next

def whensOfBranches : SqlCaseBranch → Nat
  | .last condition value => 1 + (whens condition + whens value)
  | .cons condition value next => 1 + (whens condition + (whens value + whensOfBranches next))

end

/-! ## Covered leaves and branches -/

variable (validateDateTimeValue : DateTimeType → DateTimeFormat → List Char → Bool)

/-- Tokens as the lexer finds them. -/
def AllLexed (used : List Token) : Prop :=
  ∀ token ∈ used, token.isLexed

theorem width_append (first second : List Token) :
    width (first ++ second) = width first + width second := by
  simp [width]

theorem width_cons (token : Token) (rest : List Token) :
    width (token :: rest) = token.width + width rest := by
  simp [width]

/-- Tokens from which leaves and branches were read. -/
structure Covers (used : List Token) (list : List SqlStatement) (branches : Nat) : Prop where
  leaves : AllLexed used → ∀ leaf ∈ list, LeafRead validateDateTimeValue leaf
  branches : .keyword .BETWEEN ∉ used → branches ≤ used.count (.keyword .WHEN)

variable {validateDateTimeValue}

namespace Covers

variable {first second used : List Token} {left right list : List SqlStatement}
variable {leftBranches rightBranches branches : Nat}

theorem append (covers : Covers validateDateTimeValue first left leftBranches)
    (coversRight : Covers validateDateTimeValue second right rightBranches) :
    Covers validateDateTimeValue (first ++ second) (left ++ right)
      (leftBranches + rightBranches) := by
  constructor
  · intro lexed
    obtain ⟨lexedFirst, lexedSecond⟩ := forall_mem_append.1 lexed
    exact forall_mem_append.2 ⟨covers.leaves lexedFirst, coversRight.leaves lexedSecond⟩
  · intro noBetween
    rw [mem_append, not_or] at noBetween
    rw [count_append]
    exact Nat.add_le_add (covers.branches noBetween.1) (coversRight.branches noBetween.2)

/-- Tokens that carry nothing. -/
theorem nothing (used : List Token) : Covers validateDateTimeValue used [] 0 :=
  ⟨fun _ => forall_mem_nil _, fun _ => zero_le _⟩

/-- Tokens from which one leaf was read. -/
theorem leaf {leaf : SqlStatement} (read : AllLexed used → LeafRead validateDateTimeValue leaf) :
    Covers validateDateTimeValue used [leaf] 0 :=
  ⟨fun lexed => forall_mem_singleton.2 (read lexed), fun _ => zero_le _⟩

variable (covers : Covers validateDateTimeValue used list branches) (skipped : List Token)
include covers

theorem before :
    Covers validateDateTimeValue (skipped ++ used) list branches := by
  have := (nothing skipped).append covers
  rwa [zero_add] at this

theorem after :
    Covers validateDateTimeValue (used ++ skipped) list branches := by
  have := covers.append (nothing skipped)
  rwa [append_nil] at this

theorem when : Covers validateDateTimeValue (.keyword .WHEN :: used) list (1 + branches) := by
  constructor
  · intro lexed
    exact covers.leaves (forall_mem_of_forall_mem_cons lexed)
  · intro noBetween
    rw [mem_cons, not_or] at noBetween
    have := covers.branches noBetween.2
    rw [count_cons_self]
    omega

end Covers

/-! ## Names -/

variable {part : List Char} {input rest : List Token} {parts : List (List Char)}

/-- A token that stands for a part of a name: a word, or quotes that take two letters more. -/
theorem columnName_cases {token : Token} (lexed : token.isLexed)
    (read : columnName token = some part) :
    (isPlain part ∧ part.length ≤ token.width ∧ isDoubleQuoted token = false ∧
        isReferenceHead (wordToken part) = isReferenceHead token) ∨
      part ≠ [] ∧ part.length + 2 ≤ token.width ∧
        (isDoubleQuoted token → ofNat 34 ∈ part → part.length + 2 < token.width) := by
  cases token with
  | identifierAlone text =>
    obtain rfl : lower text = part := by simpa [columnName] using read
    simp only [Token.isLexed, Bool.and_eq_true, beq_iff_eq] at lexed
    have lowered := wordToken_lower_of_identifier lexed.2
    left
    refine ⟨?_, by simp [lower, Token.width], rfl, by rw [lowered]; rfl⟩
    simp [isPlain, isWord_lower, lexed.1, lowered, columnName, lower_lower]
  | keyword keyword =>
    cases keyword <;> simp only [columnName, Option.some.injEq, reduceCtorEq] at read <;>
      subst read <;> decide
  | identifierBackTick text =>
    right
    simp only [columnName] at read
    split at read
    · simp at read
    · obtain rfl : lower text = part := by simpa using read
      exact ⟨by simpa [lower] using ‹_›, by simp [Token.width, lower], by simp [isDoubleQuoted]⟩
  | doubleQuoteLiteral text =>
    right
    simp only [columnName] at read
    split at read
    · simp at read
    · obtain rfl : text = part := by simpa using read
      refine ⟨‹_›, by simp only [Token.width]; omega, fun _ member => ?_⟩
      have : 0 < text.count (ofNat 34) := count_pos_iff.2 member
      simp only [Token.width]
      omega
  | sign | literal | emptyString | parenlessFunction => simp [columnName] at read

theorem notMem_of_isPlain {letter : Char} (plain : isPlain part)
    (noPart : isIdentifierPart letter = false) : letter ∉ part := by
  intro member
  rw [isPlain, Bool.and_eq_true] at plain
  simp [isIdentifierPart_of_mem_word plain.1 letter member] at noPart

/-- The further parts of a name with their periods. -/
def qualifierText (parts : List (List Char)) : List Char :=
  parts.flatMap fun part => '.' :: part

/-- The further parts of a name: words, or quotes that take two letters more. -/
theorem qualifiers_cases (limit : Nat) (text : List Char) {whole : List Char}
    (read : qualifiers limit text input = some (whole, rest)) :
    ∃ used parts, input = used ++ rest ∧ whole = text ++ qualifierText parts ∧
      parts.length ≤ limit ∧ (AllLexed used →
        (∀ part ∈ parts, isPlain part) ∧ (qualifierText parts).length ≤ width used ∨
          (qualifierText parts).length + 2 ≤ width used) := by
  induction limit, text, input using qualifiers.induct with
  | case1 limit text token behind ih =>
    simp only [qualifiers, Option.bind_eq_some_iff] at read
    obtain ⟨part, partRead, read⟩ := read
    obtain ⟨used, parts, rfl, rfl, short, paid⟩ := ih part read
    refine ⟨.sign .period :: token :: used, part :: parts, rfl, by simp [qualifierText],
      by simpa using short, fun lexed => ?_⟩
    have lexedToken := lexed token (by simp)
    have lexedUsed : AllLexed used := fun other member => lexed other (by simp [member])
    have total : (qualifierText (part :: parts)).length =
        1 + part.length + (qualifierText parts).length := by
      simp [qualifierText]
      omega
    have used : width (.sign .period :: token :: used) = 1 + token.width + width used := by
      rw [add_assoc]
      rfl
    obtain ⟨plain, cost, -⟩ | ⟨-, cost, -⟩ := columnName_cases lexedToken partRead
    · obtain ⟨plainParts, costParts⟩ | costParts := paid lexedUsed
      · left
        exact ⟨forall_mem_cons.2 ⟨plain, plainParts⟩, by omega⟩
      · right
        omega
    · have : (qualifierText parts).length ≤ width _ := (paid lexedUsed).elim And.right (by omega)
      omega
  | case2 limit text input noMatch =>
    rw [qualifiers] at read
    · obtain ⟨rfl, rfl⟩ : text = whole ∧ input = rest := by simpa using read
      exact ⟨[], [], rfl, by simp [qualifierText], zero_le _,
        fun _ => .inl ⟨forall_mem_nil _, by simp [qualifierText]⟩⟩
    · exact noMatch

/-- The text of a path gives its parts. -/
theorem nameParts_append (plain : ∀ other ∈ part :: parts, isPlain other) :
    nameParts (part ++ qualifierText parts) = part :: parts := by
  have text : part ++ qualifierText parts = ['.'].intercalate (part :: parts) := by
    clear plain
    induction parts generalizing part with
    | nil => simp [qualifierText]
    | cons next parts ih =>
      rw [intercalate_cons_cons, ← ih]
      simp [qualifierText]
  rw [text]
  apply splitOn_intercalate
  · intro other member
    exact notMem_of_isPlain (plain other member) (by decide)
  · exact cons_ne_nil _ _

theorem notMem_qualifierText (plain : ∀ part ∈ parts, isPlain part) :
    ofNat 34 ∉ qualifierText parts := by
  intro member
  obtain ⟨part, isPart, inPart⟩ := mem_flatMap.1 member
  obtain same | inside := mem_cons.1 inPart
  · revert same
    decide
  · exact notMem_of_isPlain (plain part isPart) (by decide) inside

/-- A name that was read: it is written as it is read, or its tokens take more letters than its
text. -/
structure NamePaid (limit : Nat) (used : List Token) (head : Token) (name : Name) : Prop where
  nonempty : name.text ≠ []
  short : name.text.length ≤ octoMaxIdent
  paid : (NamePrintable limit name ∧ (name.isDoubleQuoted = false →
      isReferenceHead (wordToken ((nameParts name.text).headD [])) = isReferenceHead head)) ∨
    (nameText name).length < width used

theorem qualifiedName_sound (limit : Nat) {head : Token} {name : Name}
    (read : qualifiedName limit input = some ((head, name), rest)) :
    ∃ used, input = used ++ rest ∧ (AllLexed used → NamePaid (limit + 1) used head name) := by
  cases input with
  | nil => simp [qualifiedName] at read
  | cons token input =>
    simp only [qualifiedName, Option.bind_eq_some_iff] at read
    obtain ⟨part, partRead, ⟨whole, behind⟩, further, read⟩ := read
    split at read
    case isFalse => simp at read
    case isTrue short =>
      simp only [Option.some.injEq, Prod.mk.injEq] at read
      obtain ⟨⟨rfl, rfl⟩, rfl⟩ := read
      obtain ⟨used, parts, rfl, rfl, count, paid⟩ := qualifiers_cases limit part further
      refine ⟨token :: used, rfl, fun lexed => ?_⟩
      have lexedUsed : AllLexed used := fun other member => lexed other (by simp [member])
      have tail := paid lexedUsed
      have total : (part ++ qualifierText parts).length =
          part.length + (qualifierText parts).length := length_append
      obtain ⟨plain, cost, unquoted, sameHead⟩ | ⟨nonempty, cost, quotes⟩ :=
        columnName_cases (lexed token mem_cons_self) partRead
      · have nonempty : part ≠ [] := by
          rintro rfl
          revert plain
          decide
        refine ⟨by simp [nonempty], short, ?_⟩
        obtain ⟨plainParts, -⟩ | costParts := tail
        · left
          have split := nameParts_append (forall_mem_cons.2 ⟨plain, plainParts⟩)
          refine ⟨?_, fun _ => by simpa [split] using sameHead⟩
          rw [unquoted]
          refine ⟨by simpa [split] using count, ?_⟩
          rw [split]
          exact forall_mem_cons.2 ⟨plain, plainParts⟩
        · right
          rw [width_cons]
          simp only [nameText, unquoted, Bool.false_eq_true, if_false]
          omega
      · refine ⟨by simp [nonempty], short, ?_⟩
        cases quoted : isDoubleQuoted token with
        | false =>
          rw [width_cons]
          simp only [nameText, Bool.false_eq_true, if_false]
          omega
        | true =>
          by_cases inside : ofNat 34 ∈ part ++ qualifierText parts
          · right
            have written : (nameText ⟨true, part ++ qualifierText parts⟩).length =
                part.length + (qualifierText parts).length + 2 := by
              simp [nameText]
              omega
            rw [width_cons]
            obtain inPart | inParts := mem_append.1 inside
            · have := quotes quoted inPart
              omega
            · obtain ⟨plainParts, -⟩ | costParts := tail
              · exact absurd inParts (notMem_qualifierText plainParts)
              · omega
          · exact .inl ⟨inside, by simp⟩

/-! ## Statements -/

/-- The letters that the tokens of a leaf take, when its text is not read back: more than the text
has. Of the type of a date or a time only the parentheses count. -/
def Pays (used : List Token) : SqlStatement → Prop
  | .value (.literal .stringLiteral text) => text.length + text.count '\'' + 2 ≤ width used
  | .value (.literal .integerLiteral text) => text.length ≤ width used
  | .value (.dateTimeLiteral type format text) =>
    '\'' ∈ text → width (dateTimeTokens type format) + text.length + 2 < width used
  | .value (.columnReference name) =>
    LeafPrintable (.value (.columnReference name)) ∨ (nameText name).length < width used
  | .functionCall name (.last (.value (.literal .integerLiteral text))) =>
    NamePrintable 2 name ∨ (nameText name).length + text.length + 2 < width used
  | .parmlessCall name =>
    LeafPrintable (.parmlessCall name) ∨ (nameText name).length + 2 < width used
  | _ => True

theorem Pays.mono {used more : List Token} {statement : SqlStatement} (pays : Pays used statement)
    (wider : width used ≤ width more) : Pays more statement := by
  unfold Pays at pays ⊢
  split at pays
  all_goals first
    | trivial
    | omega
    | exact fun inside => lt_of_lt_of_le (pays inside) wider
    | exact pays.imp id fun cost => lt_of_lt_of_le cost wider

variable (validateDateTimeValue) in
/-- Tokens from which a statement was read. -/
structure Derives (used : List Token) (statement : SqlStatement) : Prop where
  covers : Covers validateDateTimeValue used (leaves statement) (whens statement)
  pays : AllLexed used → Pays used statement

/-! ## Types and operators -/

/-- A parser that leaves an end of its input. -/
def Takes {α : Type} (parser : Parser Token α) : Prop :=
  Parser.Sound (fun _ _ => True) parser

theorem takes_of_eq (used : List Token) (same : input = used ++ rest) :
    ∃ used, input = used ++ rest ∧ True :=
  ⟨used, same, trivial⟩

theorem takes_of_read {α : Type} {found value : α} {behind : List Token}
    (read : some (found, behind) = some (value, rest)) (used : List Token)
    (same : input = used ++ behind) : ∃ used, input = used ++ rest ∧ True :=
  takes_of_eq used (same.trans (by rw [(Parser.read_inj read).2]))

theorem takes_optionalSize : Takes optionalSize := by
  intro input size rest read
  unfold optionalSize at read
  split at read
  case h_1 token behind =>
    obtain ⟨value, -, same⟩ := Option.map_eq_some_iff.1 read
    obtain ⟨-, rfl⟩ := Prod.mk.inj same
    exact takes_of_eq [_, _, _] rfl
  case h_2 => simp at read
  case h_3 => exact takes_of_read read [] rfl

theorem takes_exactNumericTypeTail : Takes exactNumericTypeTail := by
  intro input size rest read
  unfold exactNumericTypeTail at read
  split at read
  case h_1 token behind =>
    obtain ⟨value, -, same⟩ := Option.map_eq_some_iff.1 read
    obtain ⟨-, rfl⟩ := Prod.mk.inj same
    exact takes_of_eq [_, _, _] rfl
  case h_2 token scale behind =>
    obtain ⟨precision, -, read⟩ := Option.bind_eq_some_iff.1 read
    obtain ⟨scale, -, read⟩ := Option.bind_eq_some_iff.1 read
    split at read
    · exact takes_of_read read [_, _, _, _, _] rfl
    · simp at read
  case h_3 => simp at read
  case h_4 => exact takes_of_read read [] rfl

theorem dtFormat_sound (input : List Token) :
    ∃ used, input = used ++ (dtFormat input).2 ∧
      width (formatTokens (dtFormat input).1) ≤ width used := by
  unfold dtFormat
  split
  case h_5 => exact ⟨[], rfl, le_refl _⟩
  all_goals exact ⟨[_, _, _], rfl, le_refl _⟩

theorem timeZone_sound (without withZone : DateTimeType) (input : List Token) :
    ∃ used, input = used ++ (timeZone without withZone input).2 ∧
      ((timeZone without withZone input).1 = without ∨
        (timeZone without withZone input).1 = withZone) := by
  unfold timeZone
  split
  · exact ⟨[_], rfl, .inl rfl⟩
  · exact ⟨[_], rfl, .inr rfl⟩
  · exact ⟨[], rfl, .inl rfl⟩

theorem width_dateTimeTokens (type : DateTimeType) (format : DateTimeFormat) :
    width (dateTimeTokens type format) = width (formatTokens format) := by
  cases type <;> simp [dateTimeTokens, DateTimeType.tokens, Token.width, Keyword.width, width]

theorem datetimeType_sound {type : DateTimeType} {format : DateTimeFormat}
    (read : datetimeType input = some ((type, format), rest)) :
    ∃ used, input = used ++ rest ∧ allowsFormat type format ∧
      width (dateTimeTokens type format) ≤ width used := by
  have zoned (word : Token) (without withZone : DateTimeType) (behind : List Token) :
      ∃ used, word :: behind = used ++ (timeZone without withZone (dtFormat behind).2).2 ∧
        width (formatTokens (dtFormat behind).1) ≤ width used := by
    obtain ⟨used, same, cost⟩ := dtFormat_sound behind
    obtain ⟨zone, sameZone, -⟩ := timeZone_sound without withZone (dtFormat behind).2
    refine ⟨word :: (used ++ zone), ?_, ?_⟩
    · rw [cons_append, append_assoc, ← sameZone, ← same]
    · rw [width_cons, width_append]
      omega
  obtain ⟨⟨⟨type, format⟩, rest⟩, typed, checked⟩ := Option.bind_eq_some_iff.1 read
  split at checked
  case isFalse => simp at checked
  case isTrue allowed =>
    obtain ⟨⟨rfl, rfl⟩, rfl⟩ : (_ ∧ _) ∧ _ := by simpa using checked
    rw [width_dateTimeTokens]
    unfold datetimeType.dtType at typed
    split at typed
    case h_1 behind =>
      obtain ⟨used, same, cost⟩ := dtFormat_sound behind
      obtain ⟨⟨rfl, rfl⟩, rfl⟩ : (_ ∧ _) ∧ _ := by simpa using typed
      exact ⟨.keyword .DATE :: used, by rw [cons_append, ← same], allowed,
        by rw [width_cons]; omega⟩
    case h_2 behind =>
      obtain ⟨used, same, cost⟩ := zoned (.keyword .TIME) .time .timeWithTimeZone behind
      obtain ⟨⟨rfl, rfl⟩, rfl⟩ : (_ ∧ _) ∧ _ := by simpa using typed
      exact ⟨used, same, allowed, cost⟩
    case h_3 behind =>
      obtain ⟨used, same, cost⟩ :=
        zoned (.keyword .TIMESTAMP) .timestamp .timestampWithTimeZone behind
      obtain ⟨⟨rfl, rfl⟩, rfl⟩ : (_ ∧ _) ∧ _ := by simpa using typed
      exact ⟨used, same, allowed, cost⟩
    case h_4 => simp at typed

theorem takes_dataType : Takes dataType := by
  intro input type rest read
  unfold dataType at read
  split at read
  case h_1 | h_2 =>
    obtain ⟨used, size, rfl, -, -⟩ := takes_optionalSize.of_map read
    exact takes_of_eq (_ :: _ :: used) rfl
  case h_3 | h_4 | h_5 | h_10 | h_11 | h_12 | h_13 | h_14 | h_15 | h_16 =>
    obtain ⟨used, size, rfl, -, -⟩ := takes_optionalSize.of_map read
    exact takes_of_eq (_ :: used) rfl
  case h_6 | h_17 => exact takes_of_read read [_] rfl
  case h_7 | h_8 | h_9 =>
    obtain ⟨used, size, rfl, -, -⟩ := takes_exactNumericTypeTail.of_map read
    exact takes_of_eq (_ :: used) rfl
  case h_18 =>
    obtain ⟨⟨⟨type, format⟩, after⟩, typed, checked⟩ := Option.bind_eq_some_iff.1 read
    split at checked
    · obtain ⟨used, same, -⟩ := datetimeType_sound typed
      exact takes_of_read checked used same
    · simp at checked

/-- The rest of an operator is an end of the input. -/
theorem takes_operators :
    Takes termOperator ∧ Takes numericOperator ∧ Takes andOperator ∧ Takes orOperator := by
  refine ⟨?_, ?_, ?_, ?_⟩ <;> intro input operation rest read
  · unfold termOperator at read
    split at read
    case h_4 => exact takes_of_read read [_, _] rfl
    case h_5 => simp at read
    all_goals exact takes_of_read read [_] rfl
  all_goals
    simp only [numericOperator, andOperator, orOperator] at read
    split at read <;> first | exact takes_of_read read [_] rfl | simp at read

theorem takes_comparisonOperator : Takes comparisonOperator := by
  have tilde : Takes comparisonOperator.tildeOperator := by
    intro input operation rest read
    unfold comparisonOperator.tildeOperator at read
    split at read
    · exact takes_of_read read [_, _] rfl
    · exact takes_of_read read [_] rfl
    · exact takes_of_read read [_] rfl
    · exact takes_of_read read [] rfl
  have word : Takes comparisonOperator.wordOperator := by
    intro input operation rest read
    unfold comparisonOperator.wordOperator at read
    split at read
    case h_4 => simp at read
    case h_3 => exact takes_of_read read [_, _] rfl
    all_goals exact takes_of_read read [_] rfl
  intro input operation rest read
  unfold comparisonOperator at read
  split at read
  case h_7 | h_8 | h_9 | h_10 =>
    first
      | obtain ⟨used, operation, rfl, -, -⟩ := tilde.of_map read
      | obtain ⟨used, operation, rfl, -, -⟩ := word.of_map read
    first
      | exact takes_of_eq used rfl
      | exact takes_of_eq (_ :: used) rfl
      | exact takes_of_eq (_ :: _ :: used) rfl
  all_goals exact takes_of_read read [_] rfl

end Octo.Constraint
