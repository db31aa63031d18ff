import Octo.Dml.Conversion

/-!
# CHECK constraints and their texts

The definition of a table is stored as a text too, and an upgrade reads the text again. A CHECK
constraint goes into the text as `emit_check_constraint` writes it. The statements here are those
that a CHECK constraint can hold when the text is written: subqueries, aggregate functions and
parameters are refused before. Lists of the source are circular and never empty; a list ends here
with its last cell.
-/
namespace Octo.Constraint

open Octo.Dml (DateTimeFormat)

/-! ## Values -/

/-- The types of dates and times. -/
inductive DateTimeType where
  | date
  | time
  | timeWithTimeZone
  | timestamp
  | timestampWithTimeZone
deriving DecidableEq, Repr

/-- The types of literals that the lexer tells apart. A `BOOLEAN_OR_STRING_LITERAL` is a string
literal whose text decides that it may be a truth value too. -/
inductive LiteralType where
  | stringLiteral
  | numericLiteral
  | integerLiteral
deriving DecidableEq, Repr

/-- A name and whether it was written with double quotes: `v.reference` and `is_double_quoted`. -/
structure Name where
  isDoubleQuoted : Bool
  text : List Char
deriving DecidableEq, Repr

/-- The values that are written as keywords. A truth value may be unknown. -/
inductive BooleanPrimary where
  | nulValue
  | booleanValue (truth : Option Bool)
deriving DecidableEq, Repr

/-- `SqlValue`, without the calls and the casts. -/
inductive SqlValue where
  | booleanPrimary (primary : BooleanPrimary)
  | literal (type : LiteralType) (text : List Char)
  | dateTimeLiteral (type : DateTimeType) (format : DateTimeFormat) (text : List Char)
  | columnReference (name : Name)
deriving DecidableEq, Repr

/-- `INT_MAX`. -/
def intMax : Nat :=
  2147483647

/-- A size or a precision: `atoi` of a text has no defined value above `INT_MAX`. -/
structure Size where
  value : Nat
  bounded : value ≤ intMax
deriving DecidableEq, Repr

/-- The precision of a number, with a scale that is at most the precision. -/
structure Precision where
  precision : Size
  scale : Option Size
  scaleLe : ∀ size ∈ scale, size.value ≤ precision.value
deriving DecidableEq

/-- `coerced_type`: a type, and the sizes that the type can have. -/
inductive CoercedType where
  | boolean
  | integer (precision : Option Size)
  | numeric (precision : Option Precision)
  | string (size : Option Size)
  | dateTime (type : DateTimeType)
deriving DecidableEq

/-! ## Statements -/

/-- `UnaryOperations`. -/
inductive UnaryOperation where
  | forceNum
  | negative
  | booleanNot
deriving DecidableEq, Repr

/-- `BinaryOperations` on two values. The type check replaces an addition or a subtraction of dates
by an operation of its own. -/
inductive BinaryOperation where
  | addition
  | subtraction
  | division
  | multiplication
  | modulo
  | concat
  | booleanOr
  | booleanAnd
  | booleanEquals
  | booleanNotEquals
  | booleanLessThan
  | booleanGreaterThan
  | booleanLessThanOrEquals
  | booleanGreaterThanOrEquals
  | booleanRegexSensitive
  | booleanRegexInsensitive
  | booleanRegexSensitiveLike
  | booleanRegexInsensitiveLike
  | booleanRegexSensitiveSimilarto
  | dateTimeAddition
  | dateTimeSubtraction
deriving DecidableEq, Repr

mutual

/-- `SqlStatement`. The operations `BOOLEAN_IS` and `BOOLEAN_IN` with their negations are statements
of their own, since their right operand is a keyword or a list. The parameter list of a parmless
call has one cell without a value. -/
inductive SqlStatement where
  | value (value : SqlValue)
  | coerce (target : SqlStatement) (type : CoercedType)
  | unary (operation : UnaryOperation) (operand : SqlStatement)
  | binary (operation : BinaryOperation) (left right : SqlStatement)
  | booleanIs (negated : Bool) (operand : SqlStatement) (primary : BooleanPrimary)
  | booleanIn (negated : Bool) (operand : SqlStatement) (list : SqlColumnList)
  | functionCall (name : Name) (parameters : SqlColumnList)
  | parmlessCall (name : Name)
  | coalesce (arguments : SqlColumnList)
  | greatest (arguments : SqlColumnList)
  | least (arguments : SqlColumnList)
  | nullIf (left right : SqlStatement)
  | cas (value : SqlPointer) (branches : SqlCaseBranch) (optionalElse : SqlPointer)

/-- A statement or `NULL`. -/
inductive SqlPointer where
  | null
  | pointsTo (statement : SqlStatement)

/-- `SqlColumnList`. -/
inductive SqlColumnList where
  | last (value : SqlStatement)
  | cons (value : SqlStatement) (next : SqlColumnList)

/-- `SqlCaseBranchStatement`. -/
inductive SqlCaseBranch where
  | last (condition value : SqlStatement)
  | cons (condition value : SqlStatement) (next : SqlCaseBranch)

end

deriving instance DecidableEq for SqlStatement, SqlPointer, SqlColumnList, SqlCaseBranch

/-! ## Texts of the parts -/

/-- `get_user_visible_unary_operator_string`. -/
def getUserVisibleUnaryOperatorString : UnaryOperation → List Char
  | .forceNum => "+".toList
  | .negative => "-".toList
  | .booleanNot => "NOT".toList

/-- `get_user_visible_binary_operator_string`. -/
def getUserVisibleBinaryOperatorString : BinaryOperation → List Char
  | .addition | .dateTimeAddition => "+".toList
  | .subtraction | .dateTimeSubtraction => "-".toList
  | .division => "/".toList
  | .multiplication => "*".toList
  | .modulo => "%".toList
  | .concat => "||".toList
  | .booleanOr => "OR".toList
  | .booleanAnd => "AND".toList
  | .booleanEquals => "=".toList
  | .booleanNotEquals => "!=".toList
  | .booleanLessThan => "<".toList
  | .booleanGreaterThan => ">".toList
  | .booleanLessThanOrEquals => "<=".toList
  | .booleanGreaterThanOrEquals => ">=".toList
  | .booleanRegexSensitive => "~".toList
  | .booleanRegexInsensitive => "~*".toList
  | .booleanRegexSensitiveLike => "LIKE".toList
  | .booleanRegexInsensitiveLike => "ILIKE".toList
  | .booleanRegexSensitiveSimilarto => "SIMILAR TO".toList

/-- The keyword of a date or a time, and the rest of the type that follows a format. -/
def DateTimeType.words : DateTimeType → List Char × List Char
  | .date => ("DATE".toList, [])
  | .time => ("TIME".toList, [])
  | .timeWithTimeZone => ("TIME".toList, " WITH TIME ZONE".toList)
  | .timestamp => ("TIMESTAMP".toList, [])
  | .timestampWithTimeZone => ("TIMESTAMP".toList, " WITH TIME ZONE".toList)

/-- `GET_DATE_TIME_FORMAT_STRING_FROM_KEYWORD_TYPE` in parentheses. A text format is not written. -/
def formatText : DateTimeFormat → List Char
  | .text => []
  | .horolog => "(horolog)".toList
  | .zhorolog => "(zhorolog)".toList
  | .fileman => "(fileman)".toList
  | .zut => "(zut)".toList

/-- `get_user_visible_type_string`. -/
def getUserVisibleTypeString : CoercedType → List Char
  | .boolean => "BOOLEAN".toList
  | .integer _ => "INTEGER".toList
  | .numeric _ => "NUMERIC".toList
  | .string _ => "VARCHAR".toList
  | .dateTime type => type.words.1 ++ type.words.2

/-- The sizes behind the name of a type. -/
def CoercedType.sizes : CoercedType → List Size
  | .integer (some size) | .string (some size) => [size]
  | .numeric (some precision) => precision.precision :: precision.scale.toList
  | _ => []

/-- `%d`. -/
def decimal (size : Size) : List Char :=
  Nat.toDigits 10 size.value

/-- The sizes of a type in parentheses. -/
def sizesText : List Size → List Char
  | [] => []
  | size :: scale => '(' :: decimal size ++ scale.flatMap (fun size => ',' :: decimal size) ++ [')']

/-- The keyword of a value. -/
def BooleanPrimary.text : BooleanPrimary → List Char
  | .nulValue => "NULL".toList
  | .booleanValue (some false) => "FALSE".toList
  | .booleanValue (some true) => "TRUE".toList
  | .booleanValue none => "UNKNOWN".toList

/-- A name as it is written: a double quote inside is not doubled. -/
def nameText (name : Name) : List Char :=
  if name.isDoubleQuoted then Char.ofNat 34 :: name.text ++ [Char.ofNat 34] else name.text

/-- A value as it is written: a single quote inside is not doubled. -/
def valueText : SqlValue → List Char
  | .booleanPrimary primary => primary.text
  | .literal .stringLiteral text => '\'' :: text ++ ['\'']
  | .literal .numericLiteral text | .literal .integerLiteral text => text
  | .dateTimeLiteral type format text =>
    type.words.1 ++ formatText format ++ type.words.2 ++ '\'' :: text ++ ['\'']
  | .columnReference name => nameText name

/-! ## Texts of statements -/

mutual

/-- `emit_check_constraint`. -/
def emitCheckConstraint : SqlStatement → List Char
  | .value value => valueText value
  | .coerce target type =>
    emitCheckConstraint target ++ "::".toList ++ getUserVisibleTypeString type ++
      sizesText type.sizes
  | .unary operation operand =>
    '(' :: getUserVisibleUnaryOperatorString operation ++ ' ' :: emitCheckConstraint operand ++
      [')']
  | .binary operation left right =>
    '(' :: emitCheckConstraint left ++ ' ' :: getUserVisibleBinaryOperatorString operation ++
      ' ' :: emitCheckConstraint right ++ [')']
  | .booleanIs negated operand primary =>
    '(' :: emitCheckConstraint operand ++
      (if negated then " IS NOT ".toList else " IS ".toList) ++ primary.text ++ [')']
  | .booleanIn negated operand list =>
    '(' :: emitCheckConstraint operand ++
      (if negated then " NOT IN ".toList else " IN ".toList) ++ '(' :: emitCells list ++ "))".toList
  | .functionCall name parameters => nameText name ++ '(' :: emitCells parameters ++ [')']
  | .parmlessCall name => nameText name ++ "()".toList
  | .coalesce arguments => "COALESCE(".toList ++ emitCells arguments ++ [')']
  | .greatest arguments => "GREATEST(".toList ++ emitCells arguments ++ [')']
  | .least arguments => "LEAST(".toList ++ emitCells arguments ++ [')']
  | .nullIf left right =>
    "NULLIF(".toList ++ emitCheckConstraint left ++ ',' :: emitCheckConstraint right ++ [')']
  | .cas value branches optionalElse =>
    "CASE ".toList ++ emitCaseValue value ++ emitCaseBranches branches ++
      emitElse optionalElse ++ " END".toList

/-- The value of a CASE, when there is one. -/
def emitCaseValue : SqlPointer → List Char
  | .null => []
  | .pointsTo statement => emitCheckConstraint statement ++ [' ']

/-- The ELSE of a CASE, when there is one. -/
def emitElse : SqlPointer → List Char
  | .null => []
  | .pointsTo statement => " ELSE ".toList ++ emitCheckConstraint statement

/-- The cells of a list, without the parentheses around them. -/
def emitCells : SqlColumnList → List Char
  | .last value => emitCheckConstraint value
  | .cons value next => emitCheckConstraint value ++ ',' :: ' ' :: emitCells next

/-- The branches of a CASE, with nothing between two of them. -/
def emitCaseBranches : SqlCaseBranch → List Char
  | .last condition value =>
    "WHEN ".toList ++ emitCheckConstraint condition ++ " THEN ".toList ++
      emitCheckConstraint value
  | .cons condition value next =>
    "WHEN ".toList ++ emitCheckConstraint condition ++ " THEN ".toList ++
      emitCheckConstraint value ++ emitCaseBranches next

end

end Octo.Constraint
