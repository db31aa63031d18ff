import Octo.PlanHelpers.KeyedSetOperations
import Octo.PlanHelpers.Mval
import Octo.PlanHelpers.NumberedSetOperations

/-!
# Both forms of a set operation

A numbered row is the concatenation of its columns, so it is never the null string: a column that is
empty or NULL has a header. A row in the subscripts is the value of its only column, and this may be
the null string. Each helper makes the multiset that SQL asks for, and the two helpers of a set
operation make the same one.
-/
namespace Octo.PlanHelpers

open LocalArray List

/-! ## Rows -/

/-- A row of a result. A query has at least one column. -/
structure ResultRow where
  columns : List (Option (List UInt8))
  nonempty : columns ≠ []
  isColumn : ∀ value ∈ columns, IsColumn value
deriving DecidableEq

open ResultRow Function

/-- The node of a numbered row. -/
def ResultRow.node (row : ResultRow) : MValue :=
  .text (mvalRow row.columns)

theorem ResultRow.node_injective : Injective node := by
  intro first second same
  have columns := mvalRow_inj first.isColumn second.isColumn (MValue.text.inj same)
  cases second
  cases columns
  rfl

theorem ResultRow.node_ne_bot (row : ResultRow) : row.node ≠ ⊥ := by
  intro isNull
  have empty : mvalRow row.columns = mvalRow [] := MValue.text.inj isNull
  exact row.nonempty (mvalRow_inj row.isColumn (by simp) empty)

/-- The only column of a row. -/
structure ResultValue where
  value : Option (List UInt8)
  isColumn : IsColumn value
deriving DecidableEq

open ResultValue

/-- The subscript of a row in the subscripts. -/
def ResultValue.subs : ResultValue → MValue
  | ⟨some str, _⟩ => .text str
  | ⟨none, _⟩ => .null

theorem ResultValue.subs_injective : Injective subs := by
  rintro ⟨_ | first, _⟩ ⟨_ | second, _⟩ same
  · rfl
  · cases same
  · cases same
  · cases same
    rfl

/-- The row with a single column. -/
def ResultValue.row (value : ResultValue) : ResultRow :=
  ⟨[value.value], by simp, by simpa using value.isColumn⟩

theorem ResultValue.row_injective : Injective row := by
  rintro ⟨first, _⟩ ⟨second, _⟩ same
  cases same
  rfl

/-! ## Tables -/

/-- How often the subscripts of a table occur. -/
def timesIn (values : List ResultValue) (subs : MValue) : Nat :=
  (values.map ResultValue.subs).count subs

theorem timesIn_subs (values : List ResultValue) (value : ResultValue) :
    timesIn values value.subs = values.count value :=
  count_map_of_injective values _ subs_injective value

theorem SetOperation.multiplicity_zero (operation : SetOperation) :
    operation.multiplicity 0 0 = 0 := by
  cases operation <;> rfl

/-- The rows of a set operation are rows of its operands. -/
theorem exists_rows {operation : SetOperation} {rows : List MValue} {left right : List ResultRow}
    (counts : ∀ val, rows.count val = operation.multiplicity ((left.map node).count val)
      ((right.map node).count val)) :
    ∃ result : List ResultRow, rows = result.map node := by
  have nodes : rows ∈ Set.range (List.map node) := by
    rw [Set.range_list_map]
    intro val member
    by_contra notNode
    have absent : ∀ table : List ResultRow, (table.map node).count val = 0 := by
      intro table
      rw [count_eq_zero]
      intro inTable
      obtain ⟨row, -, same⟩ := mem_map.mp inTable
      exact notNode ⟨row, same⟩
    have none := counts val
    rw [absent, absent, operation.multiplicity_zero, count_eq_zero] at none
    exact none member
  obtain ⟨result, same⟩ := nodes
  exact ⟨result, same.symm⟩

theorem performs_rows (operation : SetOperation) {keys : SetKeys} {cursor : RowCursor}
    {left right : List ResultRow}
    (operands : Operands keys cursor (left.map node) (right.map node)) :
    ∃ (result : RowCursor) (rows : List ResultRow),
      operation.rowHelper keys cursor = some result ∧
      (result keys.outputId).Holds (rows.map node) ∧
      ∀ row, rows.count row = operation.multiplicity (left.count row) (right.count row) := by
  have noNull : ⊥ ∉ left.map node := by
    intro member
    obtain ⟨row, -, isNull⟩ := mem_map.mp member
    exact row.node_ne_bot isNull
  obtain ⟨result, vals, ended, ⟨holds, -⟩, counts⟩ := performs_rowHelper operands noNull operation
  obtain ⟨rows, rfl⟩ := exists_rows counts
  refine ⟨result, rows, ended, holds, fun row => ?_⟩
  have counted := counts row.node
  rwa [count_map_of_injective _ _ node_injective, count_map_of_injective _ _ node_injective,
    count_map_of_injective _ _ node_injective] at counted

/-! ## Tables of given rows -/

/-- The table of a query that numbers its rows. -/
def RowTable.ofRows (rows : List MValue) : RowTable where
  count := some rows.length
  rows :=
    { subs := (List.range' 1 rows.length).toFinset
      get? := fun z => if z = 0 then none else rows[z - 1]?
      mem_subs := by
        intro z
        rw [List.mem_toFinset, List.mem_range'_1]
        rcases z with _ | z
        · simp
        · simp [Nat.add_comm 1] }

theorem RowTable.ofRows_holds (rows : List MValue) : (RowTable.ofRows rows).Holds rows :=
  ⟨rfl, fun _ => rfl⟩

/-- The table of a query that has its rows in the subscripts. -/
def KeyTable.ofValues (values : List ResultValue) : KeyTable where
  subs := (values.map ResultValue.subs).toFinset
  get? subs := if timesIn values subs = 0 then none else some (timesIn values subs : Int)
  mem_subs subs := by
    rw [List.mem_toFinset, ← List.count_pos_iff]
    unfold timesIn
    split <;> simp [*, Nat.pos_iff_ne_zero]

theorem KeyTable.ofValues_holds (values : List ResultValue) :
    (KeyTable.ofValues values).Holds (timesIn values) :=
  fun _ => rfl

/-- The keys that a plan of two queries uses. -/
def firstKeys : SetKeys :=
  ⟨1, 2, 3, by decide, by decide, by decide⟩

/-! ## The two forms -/

/-- For every set operation and all tables: the helper for numbered rows leaves the rows of the
multiset under the numbers from 1 on, with how many they are. The helper for rows in the subscripts
leaves how often each is in the multiset. On rows with a single column they agree. -/
theorem setOperation_multiset (operation : SetOperation) (keys : SetKeys) :
    (∀ (cursor : RowCursor) (left right : List ResultRow),
      Operands keys cursor (left.map ResultRow.node) (right.map ResultRow.node) →
      ∃ (result : RowCursor) (rows : List ResultRow),
        operation.rowHelper keys cursor = some result ∧
        (result keys.outputId).Holds (rows.map ResultRow.node) ∧
        ∀ row, rows.count row = operation.multiplicity (left.count row) (right.count row)) ∧
    (∀ (cursor : KeyCursor) (left right : List ResultValue),
      KeyOperands keys cursor (timesIn left) (timesIn right) →
      (operation.keyHelper keys cursor keys.outputId).Holds fun subs =>
        operation.multiplicity (timesIn left subs) (timesIn right subs)) ∧
    (∀ (rowCursor : RowCursor) (keyCursor : KeyCursor) (left right : List ResultValue),
      Operands keys rowCursor (left.map (·.row.node)) (right.map (·.row.node)) →
      KeyOperands keys keyCursor (timesIn left) (timesIn right) →
      ∃ (result : RowCursor) (rows : List ResultRow),
        operation.rowHelper keys rowCursor = some result ∧
        (result keys.outputId).Holds (rows.map ResultRow.node) ∧
        ∀ value : ResultValue, (rows.count value.row : Int) =
          (operation.keyHelper keys keyCursor keys.outputId).number value.subs) := by
  refine ⟨fun cursor left right operands => performs_rows operation operands,
    fun cursor left right operands => (performs_keyHelper operation operands).1,
    fun rowCursor keyCursor left right operands keyOperands => ?_⟩
  have rowOperands : Operands keys rowCursor ((left.map ResultValue.row).map ResultRow.node)
      ((right.map ResultValue.row).map ResultRow.node) := by
    rw [map_map, map_map]
    exact operands
  obtain ⟨result, rows, ended, holds, counts⟩ := performs_rows operation rowOperands
  refine ⟨result, rows, ended, holds, fun value => ?_⟩
  rw [(performs_keyHelper operation keyOperands).1.number, counts, timesIn_subs, timesIn_subs,
    count_map_of_injective _ _ ResultValue.row_injective,
    count_map_of_injective _ _ ResultValue.row_injective]

/-- NULL twice and the empty string, without one NULL. -/
theorem setOperation_multiset_null :
    let nullValue : ResultValue := ⟨none, by simp [IsColumn]⟩
    let emptyValue : ResultValue := ⟨some [], by simp [IsColumn]⟩
    let left := [nullValue, emptyValue, nullValue]
    let right := [nullValue]
    let rowCursor : RowCursor := fun id =>
      .ofRows ((if id = 1 then left else right).map (·.row.node))
    let keyCursor : KeyCursor := fun id => .ofValues (if id = 1 then left else right)
    ∃ (result : RowCursor) (rows : List ResultRow),
      exceptAll firstKeys rowCursor = some result ∧
      (result 3).Holds (rows.map ResultRow.node) ∧
      (rows.count emptyValue.row : Int) =
        (columnkeyExceptAll firstKeys keyCursor 3).number emptyValue.subs := by
  intro nullValue emptyValue left right rowCursor keyCursor
  obtain ⟨result, rows, ended, holds, agree⟩ :=
    (setOperation_multiset .exceptAll firstKeys).2.2 rowCursor keyCursor left right
      ⟨RowTable.ofRows_holds _, RowTable.ofRows_holds _⟩
      ⟨KeyTable.ofValues_holds _, KeyTable.ofValues_holds _⟩
  exact ⟨result, rows, ended, holds, agree emptyValue⟩

end Octo.PlanHelpers
