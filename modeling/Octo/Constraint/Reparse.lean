import Octo.Constraint.EmittedTokens

/-!
# Parsing the tokens of a written statement

Every statement is written so that it is a `numeric_primary`: what has an operator stands in
parentheses. So the parser reads the tokens of a statement back at every level of the grammar, when
the token behind them continues no rule. The rules call each other through whole expressions, and
the nesting of the tokens bounds how deep.
-/
namespace Octo.Constraint

open Octo.Dml (DateTimeFormat)
open Octo.Foundation List Option Parser Nat

variable {text : List Char}

section

variable {validate : DateTimeType → DateTimeFormat → List Char → Bool}
variable {expression : Parser Token SqlStatement}
variable {input rest : List Token} {statement left right : SqlStatement}

/-! ## Levels -/

/-- The tokens that end a whole expression in the text of a statement. -/
def isEnd : Token → Bool
  | .sign .rightParen | .sign .comma | .keyword .WHEN | .keyword .THEN | .keyword .ELSE
  | .keyword .END => true
  | _ => false

/-- The tokens that end the operand of a logical operator. -/
def endsTest : Token → Bool
  | .keyword .AND | .keyword .OR => true
  | token => isEnd token

/-- The only sign that a primary begins with is a parenthesis. -/
theorem numericPrimary_sign {sign : Sign} (noParen : sign ≠ .leftParen) :
    numericPrimary validate expression (.sign sign :: input) = none := by
  cases sign <;> first | exact absurd rfl noParen | rfl

variable {operator : Parser Token BinaryOperation} {list : SqlColumnList} {parts : List (List Char)}
  {limit : Nat}

theorem combining_eq_none (none : operator input = none) :
    combining operator input = Option.none := by
  simp [combining, none]

variable {operation : BinaryOperation} {token : Token} {afterLeft afterOperator behind : List Token}
    {part : List Char} {name : Name} {fuel : Nat}
  (condition : expression input = some (left, .keyword .THEN :: behind))

theorem combining_eq_some (found : operator input = some (operation, rest)) :
    combining operator input = some (.binary operation, rest) := by
  simp [combining, found]

theorem numericValueExpression_of_term
    (read : term validate expression input = some (statement, rest))
    (noSum : numericOperator rest = none) :
    numericValueExpression validate expression input = some (statement, rest) :=
  chain_of_operand read (combining_eq_none noSum)

/-- A token that ends a test is no operator of any level below. -/
theorem noOperator_of_endsTest (ends : endsTest token) (rest : List Token) :
    termOperator (token :: rest) = none ∧ numericOperator (token :: rest) = none ∧
      comparisonOperator (token :: rest) = none := by
  unfold endsTest at ends
  split at ends
  · exact ⟨rfl, rfl, rfl⟩
  · exact ⟨rfl, rfl, rfl⟩
  · unfold isEnd at ends
    split at ends
    case h_7 => simp at ends
    all_goals exact ⟨rfl, rfl, rfl⟩

theorem booleanTest_of_predicate
    (read : predicate validate expression input = some (statement, rest))
    (ends : ∀ token ∈ rest.head?, endsTest token) :
    booleanTest validate expression input = some (statement, rest) := by
  simp only [booleanTest, read, bind_some]
  split
  case h_3 => rfl
  all_goals simp_all [endsTest, isEnd]

/-- A sum that a test ends with. -/
theorem booleanTest_of_numericValueExpression
    (read : numericValueExpression validate expression input = some (statement, rest))
    (ends : ∀ token ∈ rest.head?, endsTest token) :
    booleanTest validate expression input = some (statement, rest) := by
  apply booleanTest_of_predicate _ ends
  cases rest with
  | nil =>
    simp [predicate, read, comparisonRest, comparisonOperator, comparisonOperator.wordOperator]
  | cons token rest =>
    have ends := ends token rfl
    obtain ⟨-, -, noComparison⟩ := noOperator_of_endsTest ends rest
    simp only [predicate, read, bind_some]
    split
    case h_5 => simp [comparisonRest, noComparison]
    all_goals simp_all [endsTest, isEnd]

theorem booleanFactor_of_booleanTest
    (read : booleanTest validate expression input = some (statement, rest)) :
    booleanFactor validate expression input = some (statement, rest) := by
  unfold booleanFactor
  split
  case h_1 =>
    simp [booleanTest, predicate, numericValueExpression, term, chain, factor,
      numericPrimary, valueExpressionPrimary, booleanPrimary, columnName, dateTimeLiteral,
      datetimeType, datetimeType.dtType] at read
  case h_2 => exact read

theorem endsTest_of_isEnd (ends : isEnd token) : endsTest token := by
  unfold endsTest
  split
  · rfl
  · rfl
  · exact ends

section Primary

variable (read : numericPrimary validate expression input = some (statement, rest))
include read

/-- A primary begins with no sign and no NOT. -/
theorem factor_of_numericPrimary :
    factor validate expression input = some (statement, rest) := by
  unfold factor
  split
  case h_3 => exact read
  all_goals simp [numericPrimary_sign] at read

/-- No primary begins with a sign of an operator that matches texts. -/
theorem tildeOperator_of_numericPrimary :
    comparisonOperator.tildeOperator input = some (.booleanRegexSensitive, input) := by
  unfold comparisonOperator.tildeOperator
  split
  case h_4 => rfl
  all_goals simp [numericPrimary_sign] at read

theorem term_of_numericPrimary (noTerm : termOperator rest = none) :
    term validate expression input = some (statement, rest) :=
  chain_of_operand (factor_of_numericPrimary read) (combining_eq_none noTerm)

theorem numericValueExpression_of_numericPrimary (noTerm : termOperator rest = none)
    (noSum : numericOperator rest = none) :
    numericValueExpression validate expression input = some (statement, rest) :=
  numericValueExpression_of_term (term_of_numericPrimary read noTerm) noSum

theorem booleanFactor_of_numericPrimary (ends : ∀ token ∈ rest.head?, endsTest token) :
    booleanFactor validate expression input = some (statement, rest) := by
  apply booleanFactor_of_booleanTest
  apply booleanTest_of_numericValueExpression _ ends
  cases rest with
  | nil => exact numericValueExpression_of_numericPrimary read rfl rfl
  | cons token rest =>
    obtain ⟨noTerm, noSum, -⟩ := noOperator_of_endsTest (ends token rfl) rest
    exact numericValueExpression_of_numericPrimary read noTerm noSum

end Primary

section Ends

variable (ends : ∀ token ∈ rest.head?, isEnd token) {second : List Token}
include ends

theorem endsTest_of_ends : ∀ token ∈ rest.head?, endsTest token :=
  fun token head => endsTest_of_isEnd (ends token head)

theorem noLogical_of_isEnd :
    andOperator rest = none ∧ orOperator rest = none := by
  cases rest with
  | nil => exact ⟨rfl, rfl⟩
  | cons token rest =>
    have isEnd := ends token rfl
    unfold Constraint.isEnd at isEnd
    split at isEnd
    case h_7 => simp at isEnd
    all_goals exact ⟨rfl, rfl⟩

/-- A logical operand at the end of an expression. -/
theorem searchCondition_of_booleanFactor
    (read : booleanFactor validate expression input = some (statement, rest)) :
    searchCondition validate expression input = some (statement, rest) := by
  have noLogical := noLogical_of_isEnd ends
  exact chain_of_operand
    (chain_of_operand read (combining_eq_none noLogical.1)) (combining_eq_none noLogical.2)

theorem searchCondition_of_booleanTest
    (read : booleanTest validate expression input = some (statement, rest)) :
    searchCondition validate expression input = some (statement, rest) :=
  searchCondition_of_booleanFactor ends (booleanFactor_of_booleanTest read)

theorem searchCondition_of_predicate
    (read : predicate validate expression input = some (statement, rest)) :
    searchCondition validate expression input = some (statement, rest) :=
  searchCondition_of_booleanTest ends (booleanTest_of_predicate read (endsTest_of_ends ends))

theorem searchCondition_of_numericValueExpression
    (read : numericValueExpression validate expression input = some (statement, rest)) :
    searchCondition validate expression input = some (statement, rest) :=
  searchCondition_of_booleanTest ends
    (booleanTest_of_numericValueExpression read (endsTest_of_ends ends))

theorem searchCondition_of_numericPrimary
    (read : numericPrimary validate expression input = some (statement, rest)) :
    searchCondition validate expression input = some (statement, rest) :=
  searchCondition_of_booleanFactor ends
    (booleanFactor_of_numericPrimary read (endsTest_of_ends ends))

/-! ## Operators -/

theorem noOperator_of_isEnd :
    termOperator rest = none ∧ numericOperator rest = none ∧ comparisonOperator rest = none := by
  cases rest with
  | nil => exact ⟨rfl, rfl, rfl⟩
  | cons token rest => exact noOperator_of_endsTest (endsTest_of_isEnd (ends token rfl)) rest

section

variable (readRight : numericPrimary validate expression afterOperator = some (right, rest))
include readRight

section

variable (readLeft : numericPrimary validate expression input = some (left, afterLeft))
  (shorter : afterOperator.length < afterLeft.length)
include readLeft shorter

/-- The operators of a `term`. -/
theorem searchCondition_of_termOperator
    (operator : termOperator afterLeft = some (operation, afterOperator)) :
    searchCondition validate expression input = some (.binary operation left right, rest) := by
  obtain ⟨noTerm, noSum, -⟩ := noOperator_of_isEnd ends
  have product : term validate expression input =
      some (.binary operation left right, rest) :=
    chain_of_operator (factor_of_numericPrimary readLeft) (combining_eq_some operator)
      shorter (factor_of_numericPrimary readRight) (combining_eq_none noTerm)
  exact searchCondition_of_numericValueExpression ends
    (numericValueExpression_of_term product noSum)

/-- The operators of a `numeric_value_expression`. -/
theorem searchCondition_of_numericOperator (noTermLeft : termOperator afterLeft = none)
    (operator : numericOperator afterLeft = some (operation, afterOperator)) :
    searchCondition validate expression input = some (.binary operation left right, rest) := by
  obtain ⟨noTerm, noSum, -⟩ := noOperator_of_isEnd ends
  have sum : numericValueExpression validate expression input =
      some (.binary operation left right, rest) :=
    chain_of_operator (term_of_numericPrimary readLeft noTermLeft)
      (combining_eq_some operator) shorter (term_of_numericPrimary readRight noTerm)
      (combining_eq_none noSum)
  exact searchCondition_of_numericValueExpression ends sum

end

/-- The operators of a comparison. -/
theorem searchCondition_of_comparisonOperator
    (readLeft : numericPrimary validate expression input = some (left, token :: afterLeft))
    (noOperatorLeft : termOperator (token :: afterLeft) = none ∧
      numericOperator (token :: afterLeft) = none)
    (plain : token ≠ .keyword .BETWEEN ∧ token ≠ .keyword .NOT ∧ token ≠ .keyword .IN)
    (operator : comparisonOperator (token :: afterLeft) =
      some ((false, operation), afterOperator)) :
    searchCondition validate expression input =
      some (.binary operation left right, rest) := by
  obtain ⟨noTerm, noSum, -⟩ := noOperator_of_isEnd ends
  have readOperand := numericValueExpression_of_numericPrimary readLeft noOperatorLeft.1
    noOperatorLeft.2
  have readSecond := numericValueExpression_of_numericPrimary readRight noTerm noSum
  apply searchCondition_of_predicate ends
  simp only [predicate, readOperand, bind_some]
  split
  case h_5 => simp [comparisonRest, operator, readSecond, regexSpecification]
  all_goals simp_all

end

/-- An operator between two operands. -/
theorem searchCondition_binary (operation : BinaryOperation)
    (readLeft : numericPrimary validate expression input =
      some (left, binaryTokens operation ++ second))
    (readRight : numericPrimary validate expression second = some (right, rest)) :
    searchCondition validate expression input =
      some (.binary operation.asParsed left right, rest) := by
  have readSecond := booleanFactor_of_numericPrimary readRight (endsTest_of_ends ends)
  have noLogical := noLogical_of_isEnd ends
  cases operation with
  | multiplication | division | modulo =>
    exact searchCondition_of_termOperator ends readRight readLeft (lt_succ_self _) rfl
  | concat =>
    exact searchCondition_of_termOperator ends readRight readLeft (by simp [binaryTokens]) rfl
  | addition | subtraction | dateTimeAddition | dateTimeSubtraction =>
    exact searchCondition_of_numericOperator ends readRight readLeft (lt_succ_self _) rfl rfl
  | booleanEquals | booleanNotEquals | booleanLessThan | booleanGreaterThan
  | booleanLessThanOrEquals | booleanGreaterThanOrEquals | booleanRegexInsensitive
  | booleanRegexSensitiveLike | booleanRegexInsensitiveLike | booleanRegexSensitiveSimilarto =>
    exact searchCondition_of_comparisonOperator ends readRight readLeft ⟨rfl, rfl⟩ (by decide) rfl
  | booleanRegexSensitive =>
    have operator : comparisonOperator (.sign .tilde :: second) =
        some ((false, .booleanRegexSensitive), second) := by
      change (comparisonOperator.tildeOperator second).map _ = _
      rw [tildeOperator_of_numericPrimary readRight]
      rfl
    exact searchCondition_of_comparisonOperator ends readRight readLeft ⟨rfl, rfl⟩ (by decide)
      operator
  | booleanAnd =>
    have readFirst := booleanFactor_of_numericPrimary readLeft (by rintro _ ⟨⟩; rfl)
    have both : booleanTerm validate expression input =
        some (.binary .booleanAnd left right, rest) :=
      chain_of_operator readFirst (combining_eq_some rfl) (lt_succ_self _) readSecond
        (combining_eq_none noLogical.1)
    exact chain_of_operand both (combining_eq_none noLogical.2)
  | booleanOr =>
    have readFirst := booleanFactor_of_numericPrimary readLeft (by rintro _ ⟨⟩; rfl)
    have firstTerm : booleanTerm validate expression input =
        some (left, .keyword .OR :: second) :=
      chain_of_operand readFirst (combining_eq_none rfl)
    have secondTerm : booleanTerm validate expression second = some (right, rest) :=
      chain_of_operand readSecond (combining_eq_none noLogical.1)
    exact chain_of_operator firstTerm (combining_eq_some rfl) (lt_succ_self _)
      secondTerm (combining_eq_none noLogical.2)

/-- An operator before its operand. -/
theorem searchCondition_unary (operation : UnaryOperation)
    (read : numericPrimary validate expression input = some (statement, rest)) :
    searchCondition validate expression (unaryTokens operation ++ input) =
      some (.unary operation statement, rest) := by
  obtain ⟨noTerm, noSum, -⟩ := noOperator_of_isEnd ends
  have signed : ∀ operation, factor validate expression (unaryTokens operation ++ input) =
      some (.unary operation statement, rest) →
      searchCondition validate expression (unaryTokens operation ++ input) =
        some (.unary operation statement, rest) := by
    intro operation read
    exact searchCondition_of_numericValueExpression ends
      (numericValueExpression_of_term (chain_of_operand read (combining_eq_none noTerm)) noSum)
  cases operation with
  | forceNum => exact signed .forceNum (by simp [unaryTokens, factor, read])
  | negative => exact signed .negative (by simp [unaryTokens, factor, read])
  | booleanNot =>
    have operand := booleanFactor_of_numericPrimary read (endsTest_of_ends ends)
    apply searchCondition_of_booleanFactor ends
    simp [unaryTokens, booleanFactor, operand]

/-- An IS behind its operand. -/
theorem searchCondition_booleanIs (negated : Bool) (primary : BooleanPrimary)
    (read : numericPrimary validate expression input =
      some (statement, isTokens negated ++ (wordTokens primary.text ++ rest))) :
    searchCondition validate expression input =
      some (.booleanIs negated statement primary, rest) := by
  have keyword : ∃ token, wordTokens primary.text = [token] ∧ token ≠ .keyword .NOT ∧
      booleanPrimary token = some primary := by
    rcases primary with _ | _ | _ | _ <;> exact ⟨_, rfl, by decide, by decide⟩
  obtain ⟨token, tokens, notNot, readPrimary⟩ := keyword
  rw [tokens] at read
  have operand : predicate validate expression input =
      some (statement, isTokens negated ++ token :: rest) := by
    cases negated <;> simp only [predicate] at read ⊢ <;>
      rw [numericValueExpression_of_numericPrimary read rfl rfl] <;> rfl
  have tested : booleanTest validate expression input =
      some (.booleanIs negated statement primary, rest) := by
    simp only [booleanTest, operand, bind_some]
    cases negated with
    | true => simp [isTokens, readPrimary]
    | false =>
      simp only [isTokens]
      split <;> simp_all
  exact searchCondition_of_booleanTest ends tested

/-- An IN behind its operand. -/
theorem searchCondition_booleanIn (negated : Bool)
    (read : numericPrimary validate expression input =
      some (statement, inTokens negated ++ .sign .leftParen :: second))
    (cells : closedList expression second = some (list, rest)) :
    searchCondition validate expression input =
      some (.booleanIn negated statement list, rest) := by
  apply searchCondition_of_predicate ends
  cases negated with
  | true | false =>
    simp only [predicate, numericValueExpression_of_numericPrimary read rfl rfl]
    simp [inTokens, cells]

end Ends

/-! ## Names -/

/-- A part of a name that is read as itself. -/
theorem columnName_of_isPlain (plain : isPlain part) : columnName (wordToken part) = some part := by
  simp only [isPlain, Bool.and_eq_true, beq_iff_eq] at plain
  exact plain.2

theorem ne_nil_of_isPlain (plain : isPlain part) : part ≠ [] := by
  rintro rfl
  revert plain
  decide

/-- The tokens of a name. -/
def nameTokens (name : Name) : List Token :=
  nameBody name ++ wordTokens (nameLast name)

/-- The tokens of a path: its first part, and the others behind periods. -/
theorem pathTokens_eq (part : List Char) (parts : List (List Char))
    (nonempty : ∀ other ∈ part :: parts, other ≠ []) :
    pathBody (part :: parts) ++ wordTokens ((part :: parts).getLastD []) =
      wordToken part :: parts.flatMap fun other => [.sign .period, wordToken other] := by
  induction parts generalizing part with
  | nil => simp [pathBody, wordTokens, nonempty part mem_cons_self]
  | cons next parts ih =>
    have inner := ih next (forall_mem_of_forall_mem_cons nonempty)
    simp only [pathBody, cons_append, flatMap_cons, nil_append]
    rw [← inner]
    simp

/-- The further parts of a name, up to the limit. -/
theorem qualifiers_eq (plain : ∀ part ∈ parts, isPlain part)
    (noPeriod : rest.head? ≠ some (.sign .period)) (limit : Nat) (text : List Char) :
    qualifiers limit text
        (parts.flatMap (fun other => [.sign .period, wordToken other]) ++ rest) =
      some (text ++ (parts.take limit).flatMap (fun part => '.' :: part),
        (parts.drop limit).flatMap (fun other => [.sign .period, wordToken other]) ++ rest) := by
  induction parts generalizing limit text with
  | nil =>
    simp only [flatMap_nil, take_nil, drop_nil, append_nil]
    unfold qualifiers
    split
    case h_1 => simp_all
    case h_2 => rfl
  | cons part parts ih =>
    cases limit with
    | zero => simp [qualifiers]
    | succ limit =>
      have partRead := columnName_of_isPlain (plain part mem_cons_self)
      simp [qualifiers, partRead, ih (forall_mem_of_forall_mem_cons plain)]

/-- The text of a path from its parts. -/
theorem text_of_nameParts (same : nameParts text = part :: parts) :
    part ++ parts.flatMap (fun part => '.' :: part) = text := by
  have split : ['.'].intercalate (nameParts text) = text := intercalate_splitOn '.'
  rw [same] at split
  rw [← split]
  clear split same
  induction parts generalizing part with
  | nil => simp
  | cons next parts ih =>
    rw [intercalate_cons_cons, ← ih]
    simp

/-- The parts of a path and its tokens. -/
theorem exists_parts_of_isPath (path : IsPath limit text) :
    ∃ part parts, nameParts text = part :: parts ∧ (part :: parts).length ≤ limit ∧
      (∀ other ∈ parts, isPlain other) ∧ columnName (wordToken part) = some part ∧
      nameTokens ⟨false, text⟩ =
        wordToken part :: parts.flatMap fun other => [.sign .period, wordToken other] := by
  obtain ⟨count, plain⟩ := path
  obtain ⟨part, parts, same⟩ : ∃ part parts, nameParts text = part :: parts :=
    exists_cons_of_ne_nil (splitOn_ne_nil '.' text)
  rw [same] at plain count
  refine ⟨part, parts, same, count, forall_mem_of_forall_mem_cons plain,
    columnName_of_isPlain (plain part mem_cons_self), ?_⟩
  have := pathTokens_eq part parts fun other member => ne_nil_of_isPlain (plain other member)
  simpa [nameTokens, nameBody, nameLast, same] using this

/-- A name is read back when no period follows it. -/
theorem qualifiedName_eq (printable : NamePrintable (limit + 1) name)
    (nonempty : name.text ≠ []) (short : name.text.length ≤ octoMaxIdent)
    (noPeriod : rest.head? ≠ some (.sign .period)) :
    ∃ head others, nameTokens name = head :: others ∧ columnName head ≠ none ∧
      qualifiedName limit (nameTokens name ++ rest) = some ((head, name), rest) := by
  obtain ⟨quoted, text⟩ := name
  cases quoted with
  | true =>
    refine ⟨.doubleQuoteLiteral text, [], rfl, by simpa [columnName] using nonempty, ?_⟩
    have further := qualifiers_eq (forall_mem_nil _) noPeriod limit text
    have tokens : nameTokens ⟨true, text⟩ = [.doubleQuoteLiteral text] := rfl
    have first : columnName (.doubleQuoteLiteral text) = some text := if_neg nonempty
    simp only [flatMap_nil, take_nil, drop_nil, nil_append] at further
    simp [tokens, qualifiedName, first, further, short, isDoubleQuoted]
  | false =>
    obtain ⟨part, parts, same, count, plain, first, tokens⟩ := exists_parts_of_isPath printable
    have few := le_of_succ_le_succ count
    have further := qualifiers_eq plain noPeriod limit part
    have unquoted : isDoubleQuoted (wordToken part) = false := by
      unfold wordToken
      split
      · rfl
      · split <;> rfl
    refine ⟨wordToken part, _, tokens, by rw [first]; simp, ?_⟩
    rw [take_of_length_le few, drop_of_length_le few, text_of_nameParts same] at further
    simp [tokens, qualifiedName, first, further, short, unquoted]

/-- A name before no parenthesis is not read as the name of a call. -/
theorem qualifiedName_one_ne_call (printable : NamePrintable 3 name)
    (noPeriod : rest.head? ≠ some (.sign .period))
    (noParen : rest.head? ≠ some (.sign .leftParen)) {call : Token × Name}
    (found : qualifiedName 1 (nameTokens name ++ rest) = some (call, behind)) :
    behind.head? ≠ some (.sign .leftParen) := by
  obtain ⟨quoted, text⟩ := name
  -- What is left when the first part is read and some parts behind it.
  have behindOf : ∀ {first : Token} {part whole : List Char} {input left : List Token},
      columnName first = some part → qualifiers 1 part input = some (whole, left) →
      qualifiedName 1 (first :: input) = some (call, behind) → behind = left := by
    intro first part whole input left firstRead further result
    simp only [qualifiedName, firstRead, further, bind_some] at result
    split at result
    · simp only [some.injEq, Prod.mk.injEq] at result
      exact result.2.symm
    · simp at result
  cases quoted with
  | true =>
    have tokens : nameTokens ⟨true, text⟩ = [.doubleQuoteLiteral text] := rfl
    rw [tokens] at found
    by_cases empty : text = []
    · simp [qualifiedName, columnName, empty] at found
    · have further := qualifiers_eq (forall_mem_nil _) noPeriod 1 text
      have first : columnName (.doubleQuoteLiteral text) = some text := if_neg empty
      rw [behindOf first further found]
      exact noParen
  | false =>
    obtain ⟨part, parts, -, -, plainParts, first, tokens⟩ := exists_parts_of_isPath printable
    rw [tokens] at found
    rw [behindOf first (qualifiers_eq plainParts noPeriod 1 part) found]
    cases parts.drop 1 with
    | nil => exact noParen
    | cons second parts => simp

theorem valueExpressionPrimary_of_columnName (isName : columnName token ≠ none)
    (rest : List Token) :
    valueExpressionPrimary validate expression (token :: rest) =
      namedPrimary expression (token :: rest) := by
  cases token with
  | keyword keyword => cases keyword <;> first | rfl | exact absurd rfl isName
  | sign | literal | emptyString | parenlessFunction => exact absurd rfl isName
  | doubleQuoteLiteral | identifierBackTick | identifierAlone =>
    simp [valueExpressionPrimary, booleanPrimary, isName]

/-- The tokens that continue no primary. -/
structure Follows (rest : List Token) : Prop where
  noPeriod : rest.head? ≠ some (.sign .period)
  noParen : rest.head? ≠ some (.sign .leftParen)
  noZone : rest.head? ≠ some (.keyword .WITH_TIME_ZONE)
  noOtherZone : rest.head? ≠ some (.keyword .WITHOUT_TIME_ZONE)

/-- The name of a column. -/
theorem valueExpressionPrimary_columnReference
    (printable : LeafPrintable (.value (.columnReference name))) (nonempty : name.text ≠ [])
    (short : name.text.length ≤ octoMaxIdent) (follows : Follows rest) :
    valueExpressionPrimary validate expression (nameTokens name ++ rest) =
      some (.value (.columnReference name), rest) := by
  obtain ⟨head, others, same, isName, read⟩ :=
    qualifiedName_eq printable.1 nonempty short follows.noPeriod
  have isReference : isReferenceHead head := by
    obtain ⟨quotedName, text⟩ := name
    cases quotedName with
    | true =>
      obtain ⟨rfl, -⟩ := cons.inj same
      rfl
    | false =>
      obtain ⟨part, parts, split, -, -, -, tokens⟩ := exists_parts_of_isPath printable.1
      have isHead := printable.2 rfl
      rw [tokens, cons.injEq] at same
      rw [split] at isHead
      rw [← same.1]
      exact isHead
  rw [same, cons_append, valueExpressionPrimary_of_columnName isName, ← cons_append, ← same]
  unfold namedPrimary
  split
  case h_1 found | h_2 found =>
    exact absurd rfl (qualifiedName_one_ne_call printable.1 follows.noPeriod follows.noParen found)
  case h_3 => simp [read, isReference]

/-! ## Lists and branches -/

theorem closedExpression_eq (read : expression input =
    some (statement, .sign .rightParen :: rest)) :
    closedExpression expression input = some (statement, rest) := by
  simp [closedExpression, read]

theorem endedExpression_eq {final : Token}
    (read : expression input = some (statement, final :: rest)) :
    endedExpression expression final input = some (statement, rest) := by
  simp [endedExpression, read]

theorem inValueList_last (read : expression input = some (statement, rest))
    (noComma : rest.head? ≠ some (.sign .comma)) :
    inValueList expression (fuel + 1) input = some (.last statement, rest) := by
  simp only [inValueList, read, bind_some]
  split
  · exact absurd rfl noComma
  · rfl

theorem inValueList_cons (read : expression input = some (statement, .sign .comma :: behind))
    (next : inValueList expression fuel behind = some (list, rest)) :
    inValueList expression (fuel + 1) input = some (.cons statement list, rest) := by
  simp [inValueList, read, next]

include condition in
theorem simpleWhenClause_last
    (value : expression behind = some (right, rest)) (noWhen : rest.head? ≠ some (.keyword .WHEN)) :
    simpleWhenClause expression (fuel + 1) input = some (.last left right, rest) := by
  simp only [simpleWhenClause, endedExpression_eq condition, value, bind_some]
  split
  · exact absurd rfl noWhen
  · rfl

include condition in
theorem simpleWhenClause_cons {after : List Token} {branches : SqlCaseBranch}
    (value : expression behind = some (right, .keyword .WHEN :: after))
    (next : simpleWhenClause expression fuel after = some (branches, rest)) :
    simpleWhenClause expression (fuel + 1) input = some (.cons left right branches, rest) := by
  simp [simpleWhenClause, endedExpression_eq condition, value, next]

/-! ## Types -/

theorem size_sizeToken (size : Size) : Constraint.size (sizeToken size) = some size := by
  have value : ofDigitChars 10 (decimal size) 0 = size.value := ofDigitChars_ten_toDigits
  simp only [sizeToken, Constraint.size, value]
  exact dif_pos size.bounded

section

variable (noParen : rest.head? ≠ some (.sign .leftParen))
include noParen

theorem optionalSize_none : optionalSize rest = some (none, rest) := by
  unfold optionalSize
  split <;> first | rfl | exact absurd rfl noParen

theorem exactNumericTypeTail_none : exactNumericTypeTail rest = some (none, rest) := by
  unfold exactNumericTypeTail
  split <;> first | rfl | exact absurd rfl noParen

theorem dtFormat_none : dtFormat rest = (.text, rest) := by
  unfold dtFormat
  split <;> first | rfl | exact absurd rfl noParen

end

theorem timeZone_none {without withZone : DateTimeType} (follows : Follows rest) :
    timeZone without withZone rest = (without, rest) := by
  unfold timeZone
  split
  · exact absurd rfl follows.noOtherZone
  · exact absurd rfl follows.noZone
  · rfl

/-- The tokens of a type. -/
def typeTokens (type : CoercedType) : List Token :=
  typeBody type ++ wordTokens (typeLast type)

/-- A date or a time without a format. -/
theorem dataType_dateTime (type : DateTimeType) (follows : Follows rest) :
    dataType (dateTimeTokens type .text ++ rest) = some (.dateTime type, rest) := by
  have datetime : datetimeType (dateTimeTokens type .text ++ rest) =
      some ((type, .text), rest) := by
    cases type with
    | date =>
      simp [datetimeType, datetimeType.dtType, dateTimeTokens, DateTimeType.tokens, formatTokens,
        dtFormat_none follows.noParen, allowsFormat]
    | time | timestamp =>
      simp [datetimeType, datetimeType.dtType, dateTimeTokens, DateTimeType.tokens, formatTokens,
        dtFormat_none follows.noParen, timeZone_none follows, allowsFormat]
    | timeWithTimeZone | timestampWithTimeZone => rfl
  have asDate : dataType (dateTimeTokens type .text ++ rest) =
      (datetimeType (dateTimeTokens type .text ++ rest)).bind fun read =>
        if read.1.2 = .text then some (.dateTime read.1.1, read.2) else none := by
    cases type <;> rfl
  rw [asDate, datetime]
  rfl

/-- A type is read back. -/
theorem dataType_eq (type : CoercedType) (follows : Follows rest) :
    dataType (typeTokens type ++ rest) = some (type, rest) := by
  cases type with
  | boolean => rfl
  | integer precision | string precision =>
    cases precision with
    | none =>
      change (optionalSize rest).map _ = _
      rw [optionalSize_none follows.noParen]
      rfl
    | some size =>
      change ((Constraint.size (sizeToken size)).map _).map _ = _
      rw [size_sizeToken]
      rfl
  | numeric precision =>
    cases precision with
    | none =>
      change (exactNumericTypeTail rest).map _ = _
      rw [exactNumericTypeTail_none follows.noParen]
      rfl
    | some precision =>
      obtain ⟨precision, scale, below⟩ := precision
      cases scale with
      | none =>
        change ((size (sizeToken precision)).map _).map _ = _
        rw [size_sizeToken]
        rfl
      | some scale =>
        have scaleLe : scale.value ≤ precision.value := below scale rfl
        change ((size (sizeToken precision)).bind fun _ =>
          (size (sizeToken scale)).bind _).map _ = _
        rw [size_sizeToken, size_sizeToken, bind_some, bind_some, dif_pos scaleLe]
        rfl
  | dateTime type =>
    have same : typeTokens (.dateTime type) = dateTimeTokens type .text := by
      cases type <;> decide
    rw [same]
    exact dataType_dateTime type follows

theorem castSpecification_eq (target : SqlStatement) (type : CoercedType) (follows : Follows rest) :
    castSpecification target (typeTokens type ++ rest) = some (.coerce target type, rest) := by
  have asType : castSpecification target (typeTokens type ++ rest) =
      (dataType (typeTokens type ++ rest)).map fun read => (.coerce target read.1, read.2) := by
    cases type with
    | boolean => rfl
    | integer precision | string precision | numeric precision => cases precision <;> rfl
    | dateTime type => cases type <;> rfl
  rw [asType, dataType_eq type follows]
  rfl

/-- A literal of a date or a time. -/
theorem valueExpressionPrimary_dateTimeLiteral {type : DateTimeType} {format : DateTimeFormat}
    (allowed : allowsFormat type format) (valid : validate type format text) :
    valueExpressionPrimary validate expression
        (dateTimeTokens type format ++ .literal .stringLiteral text :: rest) =
      some (.value (.dateTimeLiteral type format text), rest) := by
  have read : datetimeType (dateTimeTokens type format ++ .literal .stringLiteral text :: rest) =
      some ((type, format), .literal .stringLiteral text :: rest) := by
    have zones : datetimeType.dtType
        (dateTimeTokens type format ++ .literal .stringLiteral text :: rest) =
          some ((type, format), .literal .stringLiteral text :: rest) := by
      cases type <;> cases format <;> rfl
    simp [datetimeType, zones, allowed]
  have asDate : valueExpressionPrimary validate expression
      (dateTimeTokens type format ++ .literal .stringLiteral text :: rest) =
        dateTimeLiteral validate
          (dateTimeTokens type format ++ .literal .stringLiteral text :: rest) := by
    cases type <;> rfl
  rw [asDate]
  simp [dateTimeLiteral, read, valid]

end

end Octo.Constraint
