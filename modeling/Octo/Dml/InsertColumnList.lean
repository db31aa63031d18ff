import Octo.Dml.Conversion
import Octo.Dml.Insert

/-!
# INSERT with and without a list of columns

A statement can name the columns that it inserts. Without a list the columns of the source query go
to the columns of the table in their order. The two forms are checked and compiled by different
code: only the walk without a list notes the type of the source column, which selects the
conversion, and only the check without a list reports the column whose type does not match.

A row of the source query is given by the values of its columns, and by the numbers that identity
columns get when the row is inserted.
-/
namespace Octo.Dml

open Sweep

/-- How an identity column is declared. -/
inductive Identity where
  | always
  | byDefault
deriving DecidableEq

/-- What an INSERT reads of a column. -/
structure ColumnInfo where
  columnName : String
  type : SqlDataTypeStruct
  identity : Option Identity

/-- A table that rows are inserted into, with the columns that a user sees. -/
structure InsertTarget where
  table : TableDefinition MString MString
  info : Column → ColumnInfo
  columnName_inj : ∀ first ∈ table.columns, ∀ second ∈ table.columns,
    (info first).columnName = (info second).columnName → first = second

/-- `OVERRIDING SYSTEM VALUE` and `OVERRIDING USER VALUE`. -/
inductive Overriding where
  | systemValue
  | userValue
deriving DecidableEq

/-- A row of the source query. -/
structure SourceLine where
  values : List (Option MString)
  identity : Column → MString

/-- An INSERT: the list of columns, if there is one, and the types of the source columns. -/
structure InsertStatement where
  columns : Option (List Column)
  overriding : Option Overriding
  types : List SqlValueType

/-- The errors that end an INSERT. -/
inductive InsertError where
  | insertOnGeneratedAlwaysIdentity (columnName : String)
  | insertTooManyColumns
  | insertTooManyExpressions
  | insertTypeMismatch (columnName : String) (columnType expressionType : SqlValueType)
  | dml (error : DmlError MString)
deriving DecidableEq

/-! ## Checks -/

/-- `IS_DATE_TIME_TYPE`. -/
def SqlValueType.isDateTime : SqlValueType → Bool
  | .dateLiteral | .timeLiteral | .timeWithTimeZoneLiteral | .timestampLiteral
  | .timestampWithTimeZoneLiteral => true
  | _ => false

/-- `HAS_DATE`. -/
def SqlValueType.hasDate : SqlValueType → Bool
  | .dateLiteral | .timestampLiteral | .timestampWithTimeZoneLiteral => true
  | _ => false

/-- Whether an expression of type `left` cannot be inserted into a column of type `right`. -/
def isTypeMismatch (left right : SqlValueType) : Bool :=
  match left with
  | .booleanValue => !(right ∈ [.booleanValue, .booleanOrStringLiteral, .nulValue])
  | .integerLiteral | .numericLiteral => !(right ∈ [.nulValue, .integerLiteral, .numericLiteral])
  | .stringLiteral =>
    !(right.isDateTime || right ∈ [.stringLiteral, .booleanOrStringLiteral, .nulValue])
  | .booleanOrStringLiteral =>
    !(right ∈ [.booleanValue, .stringLiteral, .booleanOrStringLiteral, .nulValue])
  | .nulValue => false
  | .dateLiteral => !right.hasDate
  | .timeLiteral | .timeWithTimeZoneLiteral => !(right ∈ [.timeLiteral, .timeWithTimeZoneLiteral])
  | .timestampLiteral | .timestampWithTimeZoneLiteral => !(right.hasDate || right == .timeLiteral)
  | .unknown => true

section Target

variable (target : InsertTarget)

/-- The type of a column as that of an expression. -/
def InsertTarget.valueType (column : Column) : SqlValueType :=
  getSqlvaluetypeFromSqldatatype (target.info column).type.dataType

/-- A column that rejects values. -/
def InsertTarget.rejects (overriding : Option Overriding) (column : Column) : Bool :=
  (target.info column).identity == some .always && overriding != some .systemValue

/-- `ERROR_IF_COLUMN_IS_IDENTITY_AND_NO_OVERRIDE_SPECIFIED` for some columns. -/
def checkIdentity (overriding : Option Overriding) : List Column → Except InsertError Unit
  | [] => .ok ()
  | column :: rest =>
    if target.rejects overriding column then
      .error (.insertOnGeneratedAlwaysIdentity (target.info column).columnName)
    else checkIdentity overriding rest

/-- The check of `qualify_query` that there are as many columns as expressions. -/
def checkCounts : List Column → List SqlValueType → Except InsertError Unit
  | [], [] => .ok ()
  | _ :: _, [] => .error .insertTooManyColumns
  | [], _ :: _ => .error .insertTooManyExpressions
  | _ :: columns, _ :: types => checkCounts columns types

/-- The first column whose type does not match. -/
def typeMismatchCla : List Column → List SqlValueType → Option (Column × SqlValueType)
  | column :: columns, type :: types =>
    if isTypeMismatch type (target.valueType column) then some (column, type)
    else typeMismatchCla columns types
  | _, _ => none

/-- `check_column_lists_for_type_match` for an INSERT. With a list of columns the error names the
column that the loop has come back to, which is the first one. -/
def checkColumnListsForTypeMatch (hasList : Bool) (columns : List Column)
    (types : List SqlValueType) : Except InsertError Unit :=
  if !hasList && columns.length < types.length then .error .insertTooManyExpressions
  else
    match typeMismatchCla target columns types with
    | none => .ok ()
    | some (column, type) =>
      let reported := if hasList then columns.headD column else column
      .error (.insertTypeMismatch (target.info reported).columnName (target.valueType reported)
        type)

/-- The checks of a statement. -/
def InsertStatement.check (statement : InsertStatement) : Except InsertError Unit :=
  match statement.columns with
  | some columns =>
    match checkIdentity target statement.overriding columns with
    | .error error => .error error
    | .ok () =>
      match checkCounts columns statement.types with
      | .error error => .error error
      | .ok () => checkColumnListsForTypeMatch target true columns statement.types
  | none =>
    -- The loop goes through the source columns and stops where the table has no more columns.
    match checkIdentity target statement.overriding
        (target.table.columns.take statement.types.length) with
    | .error error => .error error
    | .ok () => checkColumnListsForTypeMatch target false target.table.columns statement.types

/-! ## The walk over the columns -/

/-- The walk without a list: the source column of each column of the table, with its type. -/
def walkColumns (position : Nat) :
    List Column → List SqlValueType → List (Column × Option (Nat × SqlValueType))
  | [], _ => []
  | column :: columns, [] => (column, none) :: walkColumns position columns []
  | column :: columns, type :: types =>
    (column, some (position, type)) :: walkColumns (position + 1) columns types

/-- The walk with a list, which leaves the type of the source column unknown. -/
def walkList (list columns : List Column) : List (Column × Option (Nat × SqlValueType)) :=
  columns.map fun column =>
    (column, if column ∈ list then some (list.idxOf column, .unknown) else none)

/-- The source column of each column of the table. -/
def InsertStatement.walk (statement : InsertStatement) :
    List (Column × Option (Nat × SqlValueType)) :=
  match statement.columns with
  | some list => walkList list target.table.columns
  | none => walkColumns 0 target.table.columns statement.types

variable (toUnixTime : DateTimeFormat → SqlDataType → MString → Except String (Option MString))

/-- The value of a column in the generated code. -/
def InsertTarget.columnValue (overriding : Option Overriding) (line : SourceLine) (column : Column)
    (specified : Option (Nat × SqlValueType)) : Except String (Option MString) :=
  let isIdentity := (target.info column).identity.isSome
  match if isIdentity && overriding == some .userValue then none else specified with
  | some (position, type) =>
    convert toUnixTime (target.info column).type type (line.values[position]?).join
  | none => .ok (if isIdentity then some (line.identity column) else none)

/-- The columns that are computed for a row of the source query. -/
def InsertStatement.sourceRow (statement : InsertStatement) (line : SourceLine) :
    SourceRow MString :=
  fun column => target.columnValue toUnixTime statement.overriding line column
    ((statement.walk target).lookup column).join

/-- Checks and runs a statement. -/
def InsertStatement.execute (statement : InsertStatement) (lines : List SourceLine)
    (store : Store MString MString) : Except InsertError (Store MString MString) :=
  match statement.check target with
  | .error error => .error error
  | .ok () =>
    match tmplInsertInto target.table (lines.map (statement.sourceRow target toUnixTime)) store with
    | .error error => .error (.dml error)
    | .ok final => .ok final.store

end Target

end Octo.Dml
