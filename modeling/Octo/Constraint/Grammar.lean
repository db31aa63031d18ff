import Octo.Constraint.Lexer
import Octo.Foundation.TokenParser

/-!
# The grammar of expressions

The rules of the grammar from `search_condition` down, as functions that read a statement from the
beginning of a list of tokens. A rule that is recursive to its left is a loop over operators. A rule
that starts again with a whole expression calls its parameter, and the rules are tied together at
the end. Subqueries, aggregate functions and arrays are refused in a CHECK constraint and have no
statement here. The clauses that are read and dropped, `COLLATE`, `OVER` and subscripts, are not
read. A column reference that begins with one of the keywords `truncate`, `to`, `regclass` and
`regproc` does not give a column reference in the source and is not read.
-/
namespace Octo.Constraint

open Octo.Dml (DateTimeFormat)
open Octo.Foundation

/-! ## Names -/

/-- `OCTO_MAX_IDENT`. -/
def octoMaxIdent : Nat :=
  63

/-- `column_name`: the text that a token stands for. Only double quotes keep capital letters. -/
def columnName : Token → Option (List Char)
  | .identifierAlone text => some (lower text)
  | .identifierBackTick text => if text = [] then none else some (lower text)
  | .doubleQuoteLiteral text => if text = [] then none else some text
  | .keyword .TRUNCATE => some "truncate".toList
  | .keyword .TO => some "to".toList
  | .keyword .NAME => some "name".toList
  | .keyword .REGCLASS => some "regclass".toList
  | .keyword .REGPROC => some "regproc".toList
  | _ => none

/-- Whether a name that begins with a token keeps its `is_double_quoted`. -/
def isDoubleQuoted : Token → Bool
  | .doubleQuoteLiteral _ => true
  | _ => false

/-- Further parts of a name, each after a period. -/
def qualifiers : Nat → List Char → Parser Token (List Char)
  | limit + 1, text, .sign .period :: token :: rest =>
    (columnName token).bind fun part => qualifiers limit (text ++ '.' :: part) rest
  | _, text, input => some (text, input)

/-- A name with at most so many parts behind the first, and the token it begins with. -/
def qualifiedName (limit : Nat) : Parser Token (Token × Name)
  | [] => none
  | token :: rest =>
    (columnName token).bind fun first =>
      (qualifiers limit first rest).bind fun read =>
        if read.1.length ≤ octoMaxIdent then some ((token, ⟨isDoubleQuoted token, read.1⟩), read.2)
        else none

/-- The tokens that a column reference begins with. -/
def isReferenceHead : Token → Bool
  | .identifierAlone _ | .identifierBackTick _ | .doubleQuoteLiteral _ | .keyword .NAME => true
  | _ => false

/-! ## Types -/

/-- `atoi` of an integer literal. -/
def size : Token → Option Size
  | .literal .integerLiteral text =>
    if bounded : Nat.ofDigitChars 10 text 0 ≤ intMax then
      some ⟨Nat.ofDigitChars 10 text 0, bounded⟩
    else none
  | _ => none

/-- A size in parentheses, when there is one. -/
def optionalSize : Parser Token (Option Size)
  | .sign .leftParen :: token :: .sign .rightParen :: rest =>
    (size token).map fun size => (some size, rest)
  | .sign .leftParen :: _ => none
  | input => some (none, input)

/-- `exact_numeric_type_tail`: a scale above the precision is an error. -/
def exactNumericTypeTail : Parser Token (Option Precision)
  | .sign .leftParen :: token :: .sign .rightParen :: rest =>
    (size token).map fun size => (some ⟨size, none, by simp⟩, rest)
  | .sign .leftParen :: token :: .sign .comma :: scale :: .sign .rightParen :: rest =>
    (size token).bind fun precision => (size scale).bind fun scale =>
      if below : scale.value ≤ precision.value then
        some (some ⟨precision, some scale, by simpa using below⟩, rest)
      else none
  | .sign .leftParen :: _ => none
  | input => some (none, input)

/-- `dt_format`. -/
def dtFormat : List Token → DateTimeFormat × List Token
  | .sign .leftParen :: .keyword .FILEMAN :: .sign .rightParen :: rest => (.fileman, rest)
  | .sign .leftParen :: .keyword .HOROLOG :: .sign .rightParen :: rest => (.horolog, rest)
  | .sign .leftParen :: .keyword .ZHOROLOG :: .sign .rightParen :: rest => (.zhorolog, rest)
  | .sign .leftParen :: .keyword .ZUT :: .sign .rightParen :: rest => (.zut, rest)
  | input => (.text, input)

/-- The formats that a type of dates or times can have. -/
def allowsFormat : DateTimeType → DateTimeFormat → Bool
  | .time, .fileman | .timeWithTimeZone, .fileman => false
  | .time, .zut | .timeWithTimeZone, .zut | .timestampWithTimeZone, .zut => false
  | _, _ => true

/-- The time zone behind a type: the type without and with a time zone. -/
def timeZone (without withZone : DateTimeType) : List Token → DateTimeType × List Token
  | .keyword .WITHOUT_TIME_ZONE :: rest => (without, rest)
  | .keyword .WITH_TIME_ZONE :: rest => (withZone, rest)
  | input => (without, input)

/-- `datetime_type`. -/
def datetimeType (input : List Token) :
    Option ((DateTimeType × DateTimeFormat) × List Token) :=
  (dtType input).bind fun read =>
    if allowsFormat read.1.1 read.1.2 then some read else none
where
  /-- `dt_type`. -/
  dtType : Parser Token (DateTimeType × DateTimeFormat)
    | .keyword .DATE :: rest => some ((.date, (dtFormat rest).1), (dtFormat rest).2)
    | .keyword .TIME :: rest =>
      let zone := timeZone .time .timeWithTimeZone (dtFormat rest).2
      some ((zone.1, (dtFormat rest).1), zone.2)
    | .keyword .TIMESTAMP :: rest =>
      let zone := timeZone .timestamp .timestampWithTimeZone (dtFormat rest).2
      some ((zone.1, (dtFormat rest).1), zone.2)
    | _ => none

/-- `data_type` in a cast, where a date or a time has no format. -/
def dataType : Parser Token CoercedType
  | .keyword .CHARACTER :: .keyword .VARYING :: rest | .keyword .CHAR :: .keyword .VARYING :: rest
  | .keyword .CHARACTER :: rest | .keyword .CHAR :: rest | .keyword .VARCHAR :: rest =>
    (optionalSize rest).map fun read => (.string read.1, read.2)
  | .keyword .NAME :: rest => some (.string none, rest)
  | .keyword .NUMERIC :: rest | .keyword .DECIMAL :: rest | .keyword .DEC :: rest =>
    (exactNumericTypeTail rest).map fun read => (.numeric read.1, read.2)
  | .keyword .INTEGER :: rest | .keyword .INT :: rest | .keyword .INT2 :: rest
  | .keyword .INT4 :: rest | .keyword .INT8 :: rest | .keyword .SMALLINT :: rest
  | .keyword .BIGINT :: rest => (optionalSize rest).map fun read => (.integer read.1, read.2)
  | .keyword .BOOLEAN :: rest => some (.boolean, rest)
  | input =>
    (datetimeType input).bind fun read =>
      if read.1.2 = .text then some (.dateTime read.1.1, read.2) else none

/-! ## Operators -/

/-- `concatenation_operator` and the other operators of a `term`. -/
def termOperator : Parser Token BinaryOperation
  | .sign .asterisk :: rest => some (.multiplication, rest)
  | .sign .solidus :: rest => some (.division, rest)
  | .sign .percent :: rest => some (.modulo, rest)
  | .sign .pipe :: .sign .pipe :: rest => some (.concat, rest)
  | _ => none

/-- The operators of a `numeric_value_expression`. -/
def numericOperator : Parser Token BinaryOperation
  | .sign .plus :: rest => some (.addition, rest)
  | .sign .minus :: rest => some (.subtraction, rest)
  | _ => none

/-- The operator of a `boolean_term`. -/
def andOperator : Parser Token BinaryOperation
  | .keyword .AND :: rest => some (.booleanAnd, rest)
  | _ => none

/-- The operator of a `search_condition`. -/
def orOperator : Parser Token BinaryOperation
  | .keyword .OR :: rest => some (.booleanOr, rest)
  | _ => none

/-- The operators of a `comparison_predicate`, and whether the comparison is negated. -/
def comparisonOperator : Parser Token (Bool × BinaryOperation)
  | .sign .equals :: rest => some ((false, .booleanEquals), rest)
  | .sign .notEquals :: rest => some ((false, .booleanNotEquals), rest)
  | .sign .lessThan :: rest => some ((false, .booleanLessThan), rest)
  | .sign .greaterThan :: rest => some ((false, .booleanGreaterThan), rest)
  | .sign .lessThanOrEquals :: rest => some ((false, .booleanLessThanOrEquals), rest)
  | .sign .greaterThanOrEquals :: rest => some ((false, .booleanGreaterThanOrEquals), rest)
  | .sign .exclamation :: .sign .tilde :: rest => (tildeOperator rest).map fun read =>
    ((true, read.1), read.2)
  | .sign .tilde :: rest => (tildeOperator rest).map fun read => ((false, read.1), read.2)
  | .keyword .NOT :: rest => (wordOperator rest).map fun read => ((true, read.1), read.2)
  | rest => (wordOperator rest).map fun read => ((false, read.1), read.2)
where
  /-- The signs behind a tilde. -/
  tildeOperator : Parser Token BinaryOperation
    | .sign .tilde :: .sign .asterisk :: rest => some (.booleanRegexInsensitiveLike, rest)
    | .sign .tilde :: rest => some (.booleanRegexSensitiveLike, rest)
    | .sign .asterisk :: rest => some (.booleanRegexInsensitive, rest)
    | rest => some (.booleanRegexSensitive, rest)
  /-- The operators that are words. -/
  wordOperator : Parser Token BinaryOperation
    | .keyword .LIKE :: rest => some (.booleanRegexSensitiveLike, rest)
    | .keyword .ILIKE :: rest => some (.booleanRegexInsensitiveLike, rest)
    | .keyword .SIMILAR :: .keyword .TO :: rest => some (.booleanRegexSensitiveSimilarto, rest)
    | _ => none

/-- `regex_specification`: a negated comparison is below a NOT. -/
def regexSpecification (negated : Bool) (operation : BinaryOperation)
    (left right : SqlStatement) : SqlStatement :=
  if negated then .unary .booleanNot (.binary operation left right)
  else .binary operation left right

/-- `between_predicate`: the first operand is used twice. -/
def betweenPredicate (notSpecified : Bool) (operand lower upper : SqlStatement) : SqlStatement :=
  if notSpecified then
    .binary .booleanOr (.binary .booleanLessThan operand lower)
      (.binary .booleanGreaterThan operand upper)
  else
    .binary .booleanAnd (.binary .booleanGreaterThanOrEquals operand lower)
      (.binary .booleanLessThanOrEquals operand upper)

/-! ## Primaries -/

/-- `boolean_primary_minus_empty_string`. -/
def booleanPrimary : Token → Option BooleanPrimary
  | .keyword .TRUE => some (.booleanValue (some true))
  | .keyword .FALSE => some (.booleanValue (some false))
  | .keyword .NULL => some .nulValue
  | .keyword .UNKNOWN => some (.booleanValue none)
  | _ => none

section

variable (validateDateTimeValue : DateTimeType → DateTimeFormat → List Char → Bool)
variable (expression : Parser Token SqlStatement)

/-- `in_value_list_nonempty`, with at most so many cells. -/
def inValueList : Nat → Parser Token SqlColumnList
  | 0, _ => none
  | fuel + 1, input =>
    (expression input).bind fun read =>
      match read.2 with
      | .sign .comma :: rest =>
        (inValueList fuel rest).map fun next => (.cons read.1 next.1, next.2)
      | rest => some (.last read.1, rest)

/-- A list and the parenthesis that closes it. -/
def closedList (input : List Token) : Option (SqlColumnList × List Token) :=
  (inValueList expression input.length input).bind fun read =>
    match read.2 with
    | .sign .rightParen :: rest => some (read.1, rest)
    | _ => none

/-- An expression and the parenthesis that closes it. -/
def closedExpression (input : List Token) : Option (SqlStatement × List Token) :=
  (expression input).bind fun read =>
    match read.2 with
    | .sign .rightParen :: rest => some (read.1, rest)
    | _ => none

/-- An expression and the token that ends it. -/
def endedExpression (final : Token) (input : List Token) : Option (SqlStatement × List Token) :=
  (expression input).bind fun read =>
    match read.2 with
    | token :: rest => if token = final then some (read.1, rest) else none
    | [] => none

/-- `simple_when_clause`, with at most so many branches. The WHEN of the first one is read. -/
def simpleWhenClause : Nat → Parser Token SqlCaseBranch
  | 0, _ => none
  | fuel + 1, input =>
    (endedExpression expression (.keyword .THEN) input).bind fun condition =>
      (expression condition.2).bind fun value =>
        match value.2 with
        | .keyword .WHEN :: rest =>
          (simpleWhenClause fuel rest).map fun next =>
            (.cons condition.1 value.1 next.1, next.2)
        | rest => some (.last condition.1 value.1, rest)

/-- The branches of a CASE, the ELSE and the END. -/
def caseBranches (value : SqlPointer) (input : List Token) :
    Option (SqlStatement × List Token) :=
  (simpleWhenClause expression input.length input).bind fun branches =>
    match branches.2 with
    | .keyword .ELSE :: rest =>
      (endedExpression expression (.keyword .END) rest).map fun read =>
        (.cas value branches.1 (.pointsTo read.1), read.2)
    | .keyword .END :: rest => some (.cas value branches.1 .null, rest)
    | _ => none

/-- A call behind its name, or a column reference. -/
def namedPrimary (input : List Token) : Option (SqlStatement × List Token) :=
  match qualifiedName 1 input with
  | some (call, .sign .leftParen :: .sign .rightParen :: rest) =>
    some (.parmlessCall call.2, rest)
  | some (call, .sign .leftParen :: rest) =>
    (closedList expression rest).map fun read => (.functionCall call.2 read.1, read.2)
  | _ =>
    (qualifiedName 2 input).bind fun read =>
      if isReferenceHead read.1.1 then some (.value (.columnReference read.1.2), read.2) else none

/-- A literal of a date or a time. -/
def dateTimeLiteral (input : List Token) : Option (SqlStatement × List Token) :=
  (datetimeType input).bind fun read =>
    match read.2 with
    | .literal _ text :: rest =>
      if validateDateTimeValue read.1.1 read.1.2 text then
        some (.value (.dateTimeLiteral read.1.1 read.1.2 text), rest)
      else none
    | _ => none

/-- `value_expression_primary`. -/
def valueExpressionPrimary : Parser Token SqlStatement
  | .literal type text :: rest => some (.value (.literal type text), rest)
  | .emptyString :: rest => some (.value (.booleanPrimary .nulValue), rest)
  | .sign .leftParen :: rest => closedExpression expression rest
  | .parenlessFunction text :: .sign .leftParen :: .sign .rightParen :: rest =>
    some (.parmlessCall ⟨false, text⟩, rest)
  | .parenlessFunction text :: rest => some (.parmlessCall ⟨false, text⟩, rest)
  | .keyword .COALESCE :: .sign .leftParen :: rest =>
    (closedList expression rest).map fun read => (.coalesce read.1, read.2)
  | .keyword .GREATEST :: .sign .leftParen :: rest =>
    (closedList expression rest).map fun read => (.greatest read.1, read.2)
  | .keyword .LEAST :: .sign .leftParen :: rest =>
    (closedList expression rest).map fun read => (.least read.1, read.2)
  | .keyword .NULLIF :: .sign .leftParen :: rest =>
    (endedExpression expression (.sign .comma) rest).bind fun left =>
      (closedExpression expression left.2).map fun right =>
        (.nullIf left.1 right.1, right.2)
  | .keyword .CAST :: .sign .leftParen :: rest =>
    (endedExpression expression (.keyword .AS) rest).bind fun target =>
      (dataType target.2).bind fun type =>
        match type.2 with
        | .sign .rightParen :: rest => some (.coerce target.1 type.1, rest)
        | _ => none
  | .keyword .CASE :: .keyword .WHEN :: rest => caseBranches expression .null rest
  | .keyword .CASE :: rest =>
    (endedExpression expression (.keyword .WHEN) rest).bind fun value =>
      caseBranches expression (.pointsTo value.1) value.2
  | token :: rest =>
    match booleanPrimary token with
    | some primary => some (.value (.booleanPrimary primary), rest)
    | none =>
      if columnName token = none then dateTimeLiteral validateDateTimeValue (token :: rest)
      else namedPrimary expression (token :: rest)
  | [] => none

/-! ## Expressions -/

/-- `cast_specification` behind two colons. -/
def castSpecification (target : SqlStatement) : Parser Token SqlStatement
  | .keyword .REGCLASS :: rest =>
    some (.functionCall ⟨false, "regclass".toList⟩ (.last target), rest)
  | .keyword .REGPROC :: rest => some (.functionCall ⟨false, "regproc".toList⟩ (.last target), rest)
  | input => (dataType input).map fun read => (.coerce target read.1, read.2)

/-- The casts behind a primary. -/
def castRest : Nat → SqlStatement → Parser Token SqlStatement
  | fuel + 1, target, .sign .colon :: .sign .colon :: rest =>
    (castSpecification target rest).bind fun read => castRest fuel read.1 read.2
  | _, target, input => some (target, input)

/-- `numeric_primary`. -/
def numericPrimary (input : List Token) : Option (SqlStatement × List Token) :=
  (valueExpressionPrimary validateDateTimeValue expression input).bind fun read =>
    castRest read.2.length read.1 read.2

/-- `factor`. -/
def factor : Parser Token SqlStatement
  | .sign .plus :: rest =>
    (numericPrimary validateDateTimeValue expression rest).map fun read =>
      (.unary .forceNum read.1, read.2)
  | .sign .minus :: rest =>
    (numericPrimary validateDateTimeValue expression rest).map fun read =>
      (.unary .negative read.1, read.2)
  | input => numericPrimary validateDateTimeValue expression input

/-- An operator as the function that combines two operands. -/
def combining (operator : Parser Token BinaryOperation) :
    Parser Token (SqlStatement → SqlStatement → SqlStatement) :=
  fun input => (operator input).map fun read => (.binary read.1, read.2)

/-- `term`. -/
def term : Parser Token SqlStatement :=
  Parser.chain (factor validateDateTimeValue expression) (combining termOperator)

/-- `numeric_value_expression`. -/
def numericValueExpression : Parser Token SqlStatement :=
  Parser.chain (term validateDateTimeValue expression) (combining numericOperator)

/-- A comparison behind its first operand. -/
def comparisonRest (left : SqlStatement) (input : List Token) :
    Option (SqlStatement × List Token) :=
  match comparisonOperator input with
  | none => some (left, input)
  | some ((negated, operation), rest) =>
    (numericValueExpression validateDateTimeValue expression rest).map fun right =>
      (regexSpecification negated operation left right.1, right.2)

/-- `comparison_predicate`. -/
def comparisonPredicate (input : List Token) : Option (SqlStatement × List Token) :=
  (numericValueExpression validateDateTimeValue expression input).bind fun left =>
    comparisonRest validateDateTimeValue expression left.1 left.2

/-- `between_predicate` behind the keyword. -/
def betweenRest (notSpecified : Bool) (operand : SqlStatement) (input : List Token) :
    Option (SqlStatement × List Token) :=
  (comparisonPredicate validateDateTimeValue expression input).bind fun lower =>
    match lower.2 with
    | .keyword .AND :: rest =>
      (comparisonPredicate validateDateTimeValue expression rest).map fun upper =>
        (betweenPredicate notSpecified operand lower.1 upper.1, upper.2)
    | _ => none

/-- `predicate`. -/
def predicate (input : List Token) : Option (SqlStatement × List Token) :=
  (numericValueExpression validateDateTimeValue expression input).bind fun operand =>
    match operand.2 with
    | .keyword .BETWEEN :: rest => betweenRest validateDateTimeValue expression false operand.1 rest
    | .keyword .NOT :: .keyword .BETWEEN :: rest =>
      betweenRest validateDateTimeValue expression true operand.1 rest
    | .keyword .IN :: .sign .leftParen :: rest =>
      (closedList expression rest).map fun list => (.booleanIn false operand.1 list.1, list.2)
    | .keyword .NOT :: .keyword .IN :: .sign .leftParen :: rest =>
      (closedList expression rest).map fun list => (.booleanIn true operand.1 list.1, list.2)
    | rest => comparisonRest validateDateTimeValue expression operand.1 rest

/-- `boolean_test`. -/
def booleanTest (input : List Token) : Option (SqlStatement × List Token) :=
  (predicate validateDateTimeValue expression input).bind fun operand =>
    match operand.2 with
    | .keyword .IS :: .keyword .NOT :: token :: rest =>
      (booleanPrimary token).map fun primary => (.booleanIs true operand.1 primary, rest)
    | .keyword .IS :: token :: rest =>
      (booleanPrimary token).map fun primary => (.booleanIs false operand.1 primary, rest)
    | rest => some (operand.1, rest)

/-- `boolean_factor`. -/
def booleanFactor : Parser Token SqlStatement
  | .keyword .NOT :: rest =>
    (booleanFactor rest).map fun read => (.unary .booleanNot read.1, read.2)
  | input => booleanTest validateDateTimeValue expression input

/-- `boolean_term`. -/
def booleanTerm : Parser Token SqlStatement :=
  Parser.chain (booleanFactor validateDateTimeValue expression) (combining andOperator)

/-- `search_condition`. -/
def searchCondition : Parser Token SqlStatement :=
  Parser.chain (booleanTerm validateDateTimeValue expression) (combining orOperator)

end

/-- `value_expression`, nested at most so deep. -/
def valueExpression (validateDateTimeValue : DateTimeType → DateTimeFormat → List Char → Bool) :
    Nat → Parser Token SqlStatement
  | 0, _ => none
  | fuel + 1, input =>
    searchCondition validateDateTimeValue (valueExpression validateDateTimeValue fuel) input

/-- The statement that a text is read as. -/
def reparse (validateDateTimeValue : DateTimeType → DateTimeFormat → List Char → Bool)
    (text : List Char) : Option SqlStatement :=
  match valueExpression validateDateTimeValue ((lex text).length + 1) (lex text) with
  | some (statement, []) => some statement
  | _ => none

end Octo.Constraint
