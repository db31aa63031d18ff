import Octo.Physical.OrderByRemoval

/-!
# The order that an ORDER BY asks for

An ORDER BY compares combinations of rows column by column, in ascending or descending order, where
NULL is greater than every value. The columns that `lp_optimize_order_by` accepts are the first
columns of the primary keys, so that their values in a combination are the first values of its keys,
and their directions are those of the first loops.
-/
namespace Octo.Physical

open Octo.Foundation Relational List LoopTable

variable {tables : List LoopTable}

/-! ## The order of an ORDER BY -/

/-- The unary plus of M, by which ORDER BY makes a number of a value. It leaves the null value and
what is written as M writes numbers. -/
structure UnaryPlus where
  apply : MValue → MValue
  null : apply .null = .null
  number : ∀ bytes, (MValue.canonicalNumber bytes).isSome = true → apply (.text bytes) = .text bytes

/-- The subscript that an ORDER BY sorts a value under: strings are prefixed by a letter, all other
values are made numbers. -/
def sortValue (plus : UnaryPlus) : ColumnType → MValue → MValue
  | .string, .text bytes => .text (90 :: bytes)
  | .string, .null => .null
  | _, value => plus.apply value

/-- The value of a column in a combination of rows. -/
def columnOf (tables : List LoopTable) (tuple : Tuple KeyRow) (uniqueId : Nat)
    (column : KeyColumn) : MValue :=
  match (tables.zip tuple).find? fun entry => entry.1.uniqueId = uniqueId with
  | some (table, some row) => table.columnValue column row
  | _ => .null

/-- The value of an ORDER BY column. -/
def OrderColumn.value (plus : UnaryPlus) (tables : List LoopTable) (tuple : Tuple KeyRow) :
    OrderColumn → MValue
  | .columnAlias uniqueId column _ =>
    sortValue plus column.type (columnOf tables tuple uniqueId column)
  | .expression type value _ => sortValue plus type (value tuple)

/-- A combination of rows may stand before another one. -/
def SortedBefore (plus : UnaryPlus) (tables : List LoopTable) (orders : List OrderColumn)
    (first second : Tuple KeyRow) : Prop :=
  lexBefore (orders.map OrderColumn.descending) (orders.map (OrderColumn.value plus tables first))
    (orders.map (OrderColumn.value plus tables second))

/-! ## The values of the primary keys -/

/-- The values of the primary key of one table. -/
def entryValues (table : LoopTable) : Option KeyRow → List MValue
  | some row => row
  | none => table.keyColumns.map fun _ => .null

/-- The values of the primary keys of all tables. -/
def keyValues : List LoopTable → Tuple KeyRow → List MValue
  | table :: tables, entry :: tuple => entryValues table entry ++ keyValues tables tuple
  | _, _ => []

/-- A combination of rows of the tables. -/
def Placed : List LoopTable → Tuple KeyRow → Prop :=
  List.Forall₂ fun table entry => ∀ row, entry = some row → row ∈ table.rows

/-- The value of a primary key column in a combination of rows. -/
def keyValueOf (tables : List LoopTable) (tuple : Tuple KeyRow) (column : Nat × Option KeyColumn) :
    MValue :=
  match (tables.zip tuple).find? fun entry => entry.1.uniqueId = column.1 with
  | some (table, some row) => row.getD (table.keyColumns.idxOf column.2) ⊥
  | _ => .null

variable {table : LoopTable} {row : KeyRow} {tuple : Tuple KeyRow} {column : KeyColumn}

theorem LoopTable.length_of_mem_rows (member : row ∈ table.rows) :
    row.length = table.keyColumns.length :=
  (table.keyValues row member).length_eq.symm

theorem placed_none (table : LoopTable) (row : KeyRow) (isSome : none = some row) :
    row ∈ table.rows :=
  nomatch isSome

theorem length_entryValues {entry : Option KeyRow}
    (placed : ∀ row, entry = some row → row ∈ table.rows) :
    (entryValues table entry).length = table.keyColumns.length := by
  cases entry with
  | none => exact length_map _
  | some row => exact length_of_mem_rows (placed row rfl)

theorem map_getD_idxOf {Item Value : Type} [BEq Item] [LawfulBEq Item] {items : List Item}
    (distinct : items.Nodup) {values : List Value} (length : values.length = items.length)
    (default : Value) :
    (items.map fun item => values.getD (items.idxOf item) default) = values := by
  refine ext_getElem (by rw [length_map, length]) fun index inItems inValues => ?_
  rw [getElem_map, distinct.idxOf_getElem, getD, getElem?_eq_getElem inValues, Option.getD_some]

/-- The primary key columns of all tables have the values of the primary keys. -/
theorem map_keyValueOf (placed : Placed tables tuple) (distinct : (tables.map uniqueId).Nodup) :
    (JoinKeys.columns tables).map (keyValueOf tables tuple) = keyValues tables tuple := by
  induction placed with
  | nil => rfl
  | @cons table entry tables tuple here rest ih =>
    rw [map_cons, nodup_cons] at distinct
    rw [JoinKeys.columns, flatMap_cons, map_append, map_map]
    congr 1
    · cases entry with
      | none =>
        refine map_congr_left fun column _ => ?_
        simp [keyValueOf]
      | some row =>
        refine Eq.trans (map_congr_left fun column _ => ?_)
          (map_getD_idxOf table.distinct (length_of_mem_rows (here row rfl)) ⊥)
        simp [keyValueOf]
    · refine Eq.trans (map_congr_left fun column member => ?_) (ih distinct.2)
      obtain ⟨other, inTables, inColumns⟩ := mem_flatMap.mp member
      obtain ⟨_, -, rfl⟩ := mem_map.mp inColumns
      have differs : table.uniqueId ≠ other.uniqueId := fun same =>
        distinct.1 (mem_map.mpr ⟨other, inTables, same.symm⟩)
      simp [keyValueOf, differs]

/-- An entry that is found for a table belongs to it. -/
theorem found_entry (placed : Placed tables tuple) {uniqueId : Nat}
    (found : (tables.zip tuple).find? (fun entry => entry.1.uniqueId = uniqueId) =
      some (table, some row)) : table ∈ tables ∧ table.uniqueId = uniqueId ∧ row ∈ table.rows := by
  have inZip := mem_of_find?_eq_some found
  refine ⟨(of_mem_zip inZip).1, ?_, (forall₂_iff_zip.mp placed).2 inZip row rfl⟩
  simpa using find?_some found

/-- The value in a column of numbers is a number as M writes it. -/
theorem LoopTable.number_getD (member : row ∈ table.rows)
    (isKey : some column ∈ table.keyColumns) (isNumber : column.type.isNumber = true) :
    ∃ bytes, row.getD (table.keyColumns.idxOf (some column)) ⊥ = .text bytes ∧
      (MValue.canonicalNumber bytes).isSome = true := by
  have inColumns := idxOf_lt_length_of_mem isKey
  have inRow : table.keyColumns.idxOf (some column) < row.length := by
    rw [length_of_mem_rows member]
    exact inColumns
  have value := (forall₂_iff_get.mp (table.keyValues row member)).2 _ inColumns inRow
  rw [get_eq_getElem, getElem_idxOf] at value
  rw [getD, getElem?_eq_getElem inRow]
  exact value.number isNumber

variable (plus : UnaryPlus)

/-- ORDER BY sorts the columns of numbers of a primary key by their values. -/
theorem sortValue_columnOf (placed : Placed tables tuple)
    (distinct : (tables.map uniqueId).Nodup) {uniqueId : Nat}
    (isKey : (uniqueId, some column) ∈ JoinKeys.columns tables)
    (isNumber : column.type.isNumber = true) :
    sortValue plus column.type (columnOf tables tuple uniqueId column) =
      keyValueOf tables tuple (uniqueId, some column) := by
  have plain (value : MValue) : sortValue plus column.type value = plus.apply value := by
    cases type : column.type <;> first | rfl | (rw [type] at isNumber; cases isNumber)
  rw [plain]
  unfold columnOf keyValueOf
  split
  · rename_i table row found
    rw [found]
    obtain ⟨inTables, rfl, inRows⟩ := found_entry placed found
    obtain ⟨other, otherInTables, inColumns⟩ := mem_flatMap.mp isKey
    obtain ⟨_, keyColumn, pair⟩ := mem_map.mp inColumns
    obtain ⟨sameId, rfl⟩ := Prod.mk.inj pair
    obtain rfl : other = table :=
      inj_on_of_nodup_map distinct otherInTables inTables sameId
    obtain ⟨bytes, value, canonical⟩ := number_getD inRows keyColumn isNumber
    dsimp only
    rw [columnValue, if_pos keyColumn, value, plus.number bytes canonical]
  · exact plus.null

/-- The directions of the loops over primary keys. -/
def loopDirections (keys : List LoopKey) (tables : List LoopTable) : List Bool :=
  tables.flatMap fun table => table.directions keys

theorem JoinKeys.distinctTables {keys : List LoopKey} (join : JoinKeys tables keys) :
    (tables.map uniqueId).Nodup := by
  induction join with
  | nil => exact nodup_nil
  | cons _ _ distinct ih =>
    refine nodup_cons.mpr ⟨fun member => ?_, ih⟩
    obtain ⟨other, inTables, same⟩ := mem_map.mp member
    exact distinct other inTables same

section Marked

variable {keys : List LoopKey} {orders : List OrderColumn}

theorem loopDirections_eq (join : JoinKeys tables keys) :
    loopDirections keys tables =
      (keys.filter fun key => !key.isCrossReferenceKey).map LoopKey.emitDescOrder := by
  rw [← join.flatMap_primaryKeys, map_flatMap]
  rfl

variable (join : JoinKeys tables keys)
  (ordered : List.Forall₂ Ordered
    ((keys.filter fun key => !key.isCrossReferenceKey).take orders.length) orders)
include join ordered

/-- The first loops have the directions of the ORDER BY columns. -/
theorem take_loopDirections :
    (loopDirections keys tables).take orders.length = orders.map OrderColumn.descending := by
  rw [loopDirections_eq join, ← map_take, ← forall₂_eq_eq_eq,
    forall₂_map_left_iff, forall₂_map_right_iff]
  refine ordered.imp fun key order isOrdered => ?_
  obtain ⟨column, rfl, -⟩ := isOrdered
  rfl

/-- The ORDER BY columns have the values of the first columns of the primary keys. -/
theorem take_keyValues (placed : Placed tables tuple) :
    (keyValues tables tuple).take orders.length =
      orders.map (OrderColumn.value plus tables tuple) := by
  have columns := join.primary_columns
  rw [← map_keyValueOf placed join.distinctTables, ← columns, map_map, ← map_take,
    ← forall₂_eq_eq_eq, forall₂_map_left_iff, forall₂_map_right_iff]
  refine (forall₂_and_left _ _ |>.mpr ⟨fun key member => member, ordered⟩).imp
    fun key order ⟨inKeys, isOrdered⟩ => ?_
  obtain ⟨column, rfl, isColumn, isNumber⟩ := isOrdered
  have isKey : (key.uniqueId, key.column) ∈ JoinKeys.columns tables := by
    rw [← columns]
    exact mem_map.mpr ⟨key, mem_of_mem_take inKeys, rfl⟩
  rw [isColumn] at isKey
  change keyValueOf tables tuple (key.uniqueId, key.column) = _
  rw [isColumn]
  exact (sortValue_columnOf plus placed join.distinctTables isKey isNumber).symm

/-- The order of the ORDER BY is the order of the first loops. -/
theorem sortedBefore_iff {first second : Tuple KeyRow} (firstPlaced : Placed tables first)
    (secondPlaced : Placed tables second) :
    SortedBefore plus tables orders first second ↔
      lexBefore ((loopDirections keys tables).take orders.length) (keyValues tables first)
        (keyValues tables second) := by
  rw [SortedBefore, ← take_loopDirections join ordered,
    ← take_keyValues plus join ordered firstPlaced, ← take_keyValues plus join ordered secondPlaced]
  have length : ((loopDirections keys tables).take orders.length).length = orders.length := by
    rw [take_loopDirections join ordered, length_map]
  nth_rewrite 2 [← lexBefore_take]
  rw [length]

end Marked

end Octo.Physical
