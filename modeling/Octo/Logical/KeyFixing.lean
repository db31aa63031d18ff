import Octo.Logical.NormalForm

/-!
# Fixing keys by the conjuncts of a WHERE clause

`lp_optimize_where_multi_equals_ands` walks over a conjunction. A conjunct that compares a column
of the query with a constant, with a column of a parent query or with a column of another table
fixes a key of the column's table to that value, after the keys of the table were replaced by those
of a cross reference when the column is not a key. A conjunct that fixed a key is removed. The
conjunction, the keys and the join list are updated in place in the source; here they are passed
along as a state. Tables are identified by their `unique_id`.
-/
namespace Octo.Logical

open Kleene

/-! ## Clauses and keys -/

/-- What the source reads of a column. -/
structure ColumnInfo where
  /-- `IS_KEY_COLUMN`. -/
  isKeyColumn : Bool
  /-- The column has the END keyword. -/
  hasEnd : Bool
  /-- The column is computed: it has the EXTRACT keyword. -/
  hasExtract : Bool
  /-- `IS_DATE_TIME_TYPE` of the column's type. -/
  isDateTime : Bool

/-- What the source reads of a table. -/
structure TableInfo where
  /-- The table is a `create_table_STATEMENT`, and not a VALUES clause. -/
  isCreateTable : Bool
  readwrite : Bool
  column : String → ColumnInfo
  /-- `get_key_columns`. -/
  keyColumns : List String

/-- The tables by their `unique_id`, those of parent queries included. -/
abbrev Catalog := Nat → TableInfo

/-- An operand of a comparison; `address` stands for an expression that is not looked into. -/
inductive PlanOperand (Value : Type) where
  /-- `LP_VALUE`, `none` for a `NUL_VALUE`. -/
  | value (literal : Option Value) (isDateTime : Bool)
  | columnAlias (table : Nat) (column : String)
  /-- A column alias of the form `t1.*`. -/
  | tableAsterisk (table : Nat)
  | derivedColumn (address : Nat)
  | expression (address : Nat) (isDateTime : Bool)

/-- A term of a conjunction. -/
inductive Conjunct (Value : Type) where
  | comparison (operator : Comparison) (left right : PlanOperand Value)
  /-- `IN` with an `LP_COLUMN_LIST` on its right side. -/
  | inList (left : PlanOperand Value) (list : List (PlanOperand Value))
  /-- `IS`, with `none` for `IS NULL`. -/
  | isValue (left : PlanOperand Value) (right : Option Value)
  /-- `IS NOT`, with `none` for `IS NOT NULL`. -/
  | isNotValue (left : PlanOperand Value) (right : Option Value)
  /-- Every other boolean expression. -/
  | other (address : Nat)

/-- A WHERE clause or ON condition as the optimization sees it. -/
inductive Conjunction (Value : Type) where
  | booleanAnd (left right : Conjunction Value)
  | term (conjunct : Conjunct Value)

/-- `fixed_to_value` with `fixed_to_value_type`. -/
inductive KeyFix (Value : Type) where
  | comparison (operator : Comparison) (value : PlanOperand Value)
  | inList (list : List (PlanOperand Value))
  /-- Fixed to an `IS_NULL_LITERAL`. -/
  | isNull
  | isValue (literal : Value)

/-- `SqlKey`. -/
structure SqlKey (Value : Type) where
  uniqueId : Nat
  /-- `none` for the output key of a sub-query. -/
  column : Option String
  /-- `none` for an `LP_KEY_ADVANCE`, the value of an `LP_KEY_FIX` otherwise. -/
  fix : Option (KeyFix Value)
  /-- The key is iterated under a cross reference. -/
  hasCrossReferenceOutputKey : Bool
  isCrossReferenceKey : Bool

/-- What the optimization changes of a plan besides the clause. -/
structure PlanState (Value : Type) where
  /-- The `LP_KEYS` of the plan. -/
  keys : List (SqlKey Value)
  /-- The tables whose node of the join list is an `LP_TABLE`. -/
  lpTables : List Nat
  /-- The alternate list of the WHERE clause: removed conjuncts that refer to a parent query. -/
  alternate : List (Conjunct Value)

variable {Value : Type}

/-! ## Finding the key -/

/-- `key_unique_id_array`: the last position of a key of the table, 0 for a table of a parent
query. -/
def keyUniqueIdArray (keys : List (SqlKey Value)) (uniqueId : Nat) : Nat :=
  (keys.zipIdx 1).foldl (fun index key => if key.1.uniqueId = uniqueId then key.2 else index) 0

/-- The loop of `lp_get_key`, with the last fixed key of the table found so far. -/
def lpGetKeyLoop (uniqueId : Nat) (column : String) :
    List (SqlKey Value) → Nat → Option Nat → Option Nat
  | [], _, primaryKey => primaryKey
  | key :: rest, index, primaryKey =>
    if key.uniqueId ≠ uniqueId then lpGetKeyLoop uniqueId column rest (index + 1) primaryKey
    else if key.column = some column then some index
    else
      lpGetKeyLoop uniqueId column rest (index + 1)
        (if key.fix.isSome then some index else primaryKey)

/-- `lp_get_key`: the position of the key of the column, or else of a fixed key of its table. -/
def lpGetKey (keys : List (SqlKey Value)) (uniqueId : Nat) (column : String) : Option Nat :=
  lpGetKeyLoop uniqueId column keys 0 none

/-- The search for the first key of a table, which stops at the last key. -/
def firstKeyPosition (uniqueId : Nat) : List (SqlKey Value) → Nat
  | [] => 0
  | [_] => 0
  | key :: next :: rest =>
    if key.uniqueId = uniqueId then 0 else firstKeyPosition uniqueId (next :: rest) + 1

/-- The splice of the key list: the keys of a table are replaced. -/
def replaceKeys (uniqueId : Nat) (new keys : List (SqlKey Value)) : List (SqlKey Value) :=
  let position := firstKeyPosition uniqueId keys
  keys.take position ++ new ++
    (keys.drop position).tail.dropWhile fun key => key.uniqueId == uniqueId

/-- The key of a cross reference and the keys of its table that are iterated under it. -/
def xrefKeys (catalog : Catalog) (uniqueId : Nat) (column : String) : List (SqlKey Value) :=
  ⟨uniqueId, some column, none, false, true⟩ ::
    (catalog uniqueId).keyColumns.map fun keyColumn =>
      ⟨uniqueId, some keyColumn, none, true, false⟩

/-- The position of the key to fix. A column without a key gets a cross reference, unless it is
computed or its table is no longer an `LP_TABLE`. -/
def keyToFix (catalog : Catalog) (uniqueId : Nat) (column : String) (state : PlanState Value) :
    Option (Nat × PlanState Value) :=
  match lpGetKey state.keys uniqueId column with
  | some index => some (index, state)
  | none =>
    if ((catalog uniqueId).column column).hasExtract || uniqueId ∉ state.lpTables then none
    else
      some (firstKeyPosition uniqueId state.keys,
        { state with
          keys := replaceKeys uniqueId (xrefKeys catalog uniqueId column) state.keys
          lpTables := state.lpTables.filter (· ≠ uniqueId) })

/-! ## One conjunct -/

/-- The comparison with its operands swapped. -/
def Comparison.converse : Comparison → Comparison
  | .equals => .equals
  | .notEquals => .notEquals
  | .lessThan => .greaterThan
  | .greaterThan => .lessThan
  | .lessThanOrEquals => .greaterThanOrEquals
  | .greaterThanOrEquals => .lessThanOrEquals

/-- `<`, `>`, `<=` and `>=`. -/
def Comparison.isRange : Comparison → Bool
  | .equals | .notEquals => false
  | _ => true

/-- `IS_DATE_TIME_TYPE(lp_get_plan_value_type(operand))`. -/
def PlanOperand.isDateTime (catalog : Catalog) : PlanOperand Value → Bool
  | .value _ isDateTime => isDateTime
  | .columnAlias table column => ((catalog table).column column).isDateTime
  | .tableAsterisk _ | .derivedColumn _ => false
  | .expression _ isDateTime => isDateTime

/-- `IS_READONLY_TABLE_COLUMN`. -/
def PlanOperand.isReadonlyTableColumn (catalog : Catalog) : PlanOperand Value → Bool
  | .columnAlias table _ => (catalog table).isCreateTable && !(catalog table).readwrite
  | _ => false

/-- A range over the cross reference of a read-only table would follow the text format of date/time
values. -/
def doNotOptimizeRange (catalog : Catalog) (left right : PlanOperand Value) : Bool :=
  (left.isDateTime catalog || right.isDateTime catalog) &&
    (left.isReadonlyTableColumn catalog || right.isReadonlyTableColumn catalog)

/-- A column that a conjunct can fix. -/
structure ColumnReference where
  table : Nat
  column : String

/-- The two sides of a conjunct that key fixing works on: a constant, or a column. -/
inductive FixSide where
  | constant
  | column (reference : ColumnReference)

/-- The operands that key fixing looks at. -/
def PlanOperand.side : PlanOperand Value → Option FixSide
  | .value _ _ => some .constant
  | .columnAlias table column => some (.column ⟨table, column⟩)
  | .tableAsterisk _ | .derivedColumn _ | .expression _ _ => none

/-- Which side a conjunct can fix, and whether its operands are swapped for that: the column of the
later table, where a column of a parent query counts as a constant. -/
def sideToFix (array : Nat → Nat) : FixSide → FixSide → Option (ColumnReference × Bool)
  | .column left, .column right =>
    if left.table = right.table then none
    else if array left.table = 0 ∧ array right.table = 0 then none
    else if array right.table ≠ 0 ∧ array left.table < array right.table then some (right, true)
    else some (left, false)
  | .constant, .column right => if array right.table = 0 then none else some (right, true)
  | .column left, .constant => if array left.table = 0 then none else some (left, false)
  | .constant, .constant => none

/-- The context of the optimization: the table of an ON condition's right side, or `none` for the
WHERE clause, and the number of outer joins of the query. -/
structure FixContext where
  catalog : Catalog
  array : Nat → Nat
  rightTableAlias : Option Nat
  numOuterJoins : Nat

/-- Fixes the key of a column and removes the conjunct, unless it is a part of the WHERE clause of a
query with outer joins. Keys that are already fixed or iterated under a cross reference cannot be
fixed. -/
def fixKey (context : FixContext) (reference : ColumnReference) (fix : KeyFix Value)
    (refersToParent : Bool) (conjunct : Conjunct Value) (state : PlanState Value) :
    Option (Conjunct Value) × PlanState Value :=
  match keyToFix context.catalog reference.table reference.column state with
  | none => (some conjunct, state)
  | some (index, found) =>
    match found.keys[index]? with
    | none => (some conjunct, found)
    | some key =>
      if key.fix.isNone && !key.hasCrossReferenceOutputKey then
        let fixedState :=
          { found with keys := found.keys.set index { key with fix := some fix } }
        if context.rightTableAlias.isSome || context.numOuterJoins == 0 then
          (none, if refersToParent then
              { fixedState with alternate := fixedState.alternate ++ [conjunct] }
            else fixedState)
        else (some conjunct, fixedState)
      else (some conjunct, found)

/-- The checks on the column that is to be fixed. -/
def fixColumn (context : FixContext) (reference : ColumnReference) (fix : KeyFix Value)
    (isNull isRange refersToParent : Bool) (conjunct : Conjunct Value) (state : PlanState Value) :
    Option (Conjunct Value) × PlanState Value :=
  let notFixable :=
    match context.rightTableAlias with
    | some rightTable => reference.table != rightTable
    | none => isNull && context.numOuterJoins != 0
  if notFixable then (some conjunct, state)
  else if !(context.catalog reference.table).isCreateTable then (some conjunct, state)
  else if isRange && ((context.catalog reference.table).column reference.column).hasEnd then
    (some conjunct, state)
  else fixKey context reference fix refersToParent conjunct state

/-- The conjunct compares a column of the query with a column of a parent query. -/
def refersToParent (array : Nat → Nat) : FixSide → FixSide → Bool
  | .column left, .column right => array left.table == 0 || array right.table == 0
  | _, _ => false

/-- `LP_VALUE`. -/
def PlanOperand.isValue : PlanOperand Value → Bool
  | .value _ _ => true
  | _ => false

/-- `lp_optimize_where_multi_equals_ands_helper` on a term of a conjunction: what is left of the
term and the new state. -/
def optimizeConjunct (context : FixContext) (conjunct : Conjunct Value) (state : PlanState Value) :
    Option (Conjunct Value) × PlanState Value :=
  match conjunct with
  | .comparison operator left right =>
    if operator = .notEquals then (some conjunct, state)
    else if operator.isRange && doNotOptimizeRange context.catalog left right then
      (some conjunct, state)
    else
      match left.side, right.side with
      | some leftSide, some rightSide =>
        match sideToFix context.array leftSide rightSide with
        | none => (some conjunct, state)
        | some (reference, swapped) =>
          let fix :=
            if swapped then .comparison operator.converse left
            else .comparison operator right
          fixColumn context reference fix false operator.isRange
            (refersToParent context.array leftSide rightSide) conjunct state
      | _, _ => (some conjunct, state)
  | .inList (.columnAlias table column) list =>
    if !list.all PlanOperand.isValue || context.array table == 0 then (some conjunct, state)
    else fixColumn context ⟨table, column⟩ (.inList list) false false false conjunct state
  | .isNotValue (.columnAlias table column) none =>
    -- A key column is never NULL without outer joins, and every other column is left alone.
    if context.array table == 0 || !(context.catalog table).isCreateTable ||
        context.numOuterJoins != 0 || !((context.catalog table).column column).isKeyColumn then
      (some conjunct, state)
    else (none, state)
  | .isValue (.columnAlias table column) right =>
    if context.array table == 0 || !(context.catalog table).isCreateTable then
      (some conjunct, state)
    else
      let fix :=
        match right with
        | none => .isNull
        | some literal => .isValue literal
      fixColumn context ⟨table, column⟩ fix right.isNone false false conjunct state
  | .inList _ _ | .isNotValue _ _ | .isValue _ _ | .other _ => (some conjunct, state)

/-! ## The whole conjunction -/

/-- The conjunction of what is left of two clauses. -/
def conjoin : Option (Conjunction Value) → Option (Conjunction Value) → Option (Conjunction Value)
  | none, right => right
  | left, none => left
  | some left, some right => some (.booleanAnd left right)

/-- `lp_optimize_where_multi_equals_ands_helper`: the left side is optimized before the right. -/
def lpOptimizeWhereMultiEqualsAndsHelper (context : FixContext) :
    Conjunction Value → PlanState Value → Option (Conjunction Value) × PlanState Value
  | .booleanAnd left right, state =>
    let (newLeft, leftState) := lpOptimizeWhereMultiEqualsAndsHelper context left state
    let (newRight, rightState) := lpOptimizeWhereMultiEqualsAndsHelper context right leftState
    (conjoin newLeft newRight, rightState)
  | .term conjunct, state =>
    let (left, newState) := optimizeConjunct context conjunct state
    (left.map .term, newState)

/-- `lp_optimize_where_multi_equals_ands`: the positions of the keys are those at the start. -/
def lpOptimizeWhereMultiEqualsAnds (catalog : Catalog) (rightTableAlias : Option Nat)
    (numOuterJoins : Nat) (clause : Option (Conjunction Value)) (state : PlanState Value) :
    Option (Conjunction Value) × PlanState Value :=
  match clause with
  | none => (none, state)
  | some conjunction =>
    lpOptimizeWhereMultiEqualsAndsHelper
      ⟨catalog, keyUniqueIdArray state.keys, rightTableAlias, numOuterJoins⟩ conjunction state

end Octo.Logical
