import Octo.Rocto.PreparedParms

/-!
# The row limit of an Execute message

The grammar gives an outermost SELECT of the extended query protocol a LIMIT if it has none, so that
the last parameter of such a query is its LIMIT. `handle_execute` lowers the last parameter to the
number of rows that the client asks for. It does so for every query, also for those whose last
parameter is something else.
-/
namespace Octo.Rocto

open Octo.Foundation

/-! ## Queries -/

/-- The set operators of the grammar. -/
inductive SetOperator where
  | union
  | unionAll
  | except
  | exceptAll
  | intersect
  | intersectAll
deriving DecidableEq, Repr

mutual

/-- A query expression: what it has of parameters and sub-queries in the order of its text, with the
rest of a SELECT as its body. The LIMIT of a SELECT stands at its end. -/
inductive QueryExpr where
  | select (body : String) (items : QueryItems) (limit : Option Nat)
  | setOperation (operator : SetOperator) (left right : QueryExpr)
  | values (rows : QueryRows)

/-- The parameters and the sub-queries of a SELECT or of a row. -/
inductive QueryItems where
  | nil
  | parm (parm : QueryParm) (rest : QueryItems)
  | subquery (query : QueryExpr) (rest : QueryItems)

/-- The rows of VALUES. -/
inductive QueryRows where
  | nil
  | row (items : QueryItems) (rest : QueryRows)

end

mutual

/-- The parameters of a query in the order in which the grammar numbers them. -/
def QueryExpr.parms : QueryExpr → List QueryParm
  | .select _ items limit =>
    items.parms ++ limit.toList.map fun number => .literal (decimal number)
  | .setOperation _ left right => left.parms ++ right.parms
  | .values rows => rows.parms

/-- The parameters of the items of a query. -/
def QueryItems.parms : QueryItems → List QueryParm
  | .nil => []
  | .parm parm rest => parm :: rest.parms
  | .subquery query rest => query.parms ++ rest.parms

/-- The parameters of the rows of VALUES. -/
def QueryRows.parms : QueryRows → List QueryParm
  | .nil => []
  | .row items rest => items.parms ++ rest.parms

end

/-- `YDB_MAX_INT_VAL`. -/
def ydbMaxIntVal : Nat :=
  999999999999999999

/-- The rule for a query of the extended query protocol: an outermost SELECT without a LIMIT gets
one. -/
def extendedQuery : QueryExpr → QueryExpr
  | .select body items none => .select body items (some ydbMaxIntVal)
  | query => query

/-! ## Plans -/

/-- What an item contributes to a row: the text of a parameter, or the rows of a sub-query, which
depend on the row around it. -/
inductive ItemValue (Row Env : Type) where
  | text (text : List UInt8)
  | rows (rows : Env → List Row)

/-- What a plan computes apart from parameters and limits: the bodies of the SELECTs over the
tables, the set operations and the rows of VALUES. -/
structure Meaning (Row Env : Type) where
  select : String → Env → List (ItemValue Row Env) → List Row
  setOperation : SetOperator → List Row → List Row → List Row
  row : Env → List (ItemValue Row Env) → Row

/-- A byte that `strtol` skips. -/
def isSpace (byte : UInt8) : Bool :=
  byte = 32 ∨ 9 ≤ byte ∧ byte ≤ 13

/-- A decimal digit. -/
def isDigit (byte : UInt8) : Bool :=
  48 ≤ byte ∧ byte ≤ 57

/-- The number that the digits at the beginning of a text are. -/
def leadingNumber (text : List UInt8) : Nat :=
  (text.takeWhile isDigit).foldl (fun number digit => 10 * number + (digit.toNat - 48)) 0

/-- `strtol` in base 10. Where the C function stops at the largest or smallest `long`, the result is
only compared with an `int32_t`. -/
def strtol (text : List UInt8) : Int :=
  match text.dropWhile isSpace with
  | 45 :: digits => -leadingNumber digits
  | 43 :: digits => leadingNumber digits
  | digits => leadingNumber digits

section Plan

variable {Row Env : Type} (meaning : Meaning Row Env) (cursor : Nat → List UInt8)

mutual

/-- The rows of a query, with the values of its parameters under the cursor. `start` is the number
of the parameters before the query. -/
def QueryExpr.evalRows (start : Nat) (env : Env) : QueryExpr → List Row
  | .select body items limit =>
    let rows := meaning.select body env (items.evalItems start)
    match limit with
    | none => rows
    | some _ => rows.take (strtol (cursor (start + items.parms.length + 1))).toNat
  | .setOperation operator left right =>
    meaning.setOperation operator (left.evalRows start env)
      (right.evalRows (start + left.parms.length) env)
  | .values rows => rows.evalValues start env

/-- What the items of a query contribute. -/
def QueryItems.evalItems (start : Nat) : QueryItems → List (ItemValue Row Env)
  | .nil => []
  | .parm _ rest => .text (cursor (start + 1)) :: rest.evalItems (start + 1)
  | .subquery query rest =>
    .rows (fun env => query.evalRows start env) :: rest.evalItems (start + query.parms.length)

/-- The rows of VALUES. -/
def QueryRows.evalValues (start : Nat) (env : Env) : QueryRows → List Row
  | .nil => []
  | .row items rest =>
    meaning.row env (items.evalItems start) :: rest.evalValues (start + items.parms.length) env

end

end Plan

/-! ## `handle_execute` -/

/-- The parameters that `handle_execute` puts under the cursor: those of the portal, with the last
one lowered to the row limit. Without parameters the node that is set has no number. -/
def executeParms (values : List (List UInt8)) (maxDataToSend : Nat) : List (List UInt8) :=
  match values.getLast? with
  | none => values
  | some last =>
    if maxDataToSend ≠ 0 ∧ strtol last > maxDataToSend then
      values.dropLast ++ [decimal maxDataToSend]
    else values

/-- The value of a parameter under the cursor, by its number. -/
def cursorParm (values : List (List UInt8)) (index : Nat) : List UInt8 :=
  values[index - 1]?.getD []

/-- The rows of a portal with these values of its parameters. -/
def portalRows {Row Env : Type} (meaning : Meaning Row Env) (env : Env) (query : QueryExpr)
    (values : List (List UInt8)) : List Row :=
  (extendedQuery query).evalRows meaning (cursorParm values) 0 env

end Octo.Rocto
