import Octo.Dml.Constraint

/-!
# INSERT

An INSERT goes through the rows of its source query. For each of them it evaluates the columns in
their order, checks the constraints and stores the row. A table without key columns numbers its rows
with `$INCREMENT` of the node without subscripts.
-/
namespace Octo.Dml

open Sweep UniqueIndex

variable {Text Node : Type}

/-- A row of the source query: the value of each column of the table, after its conversion to the
type of the column. Columns that the statement does not name are NULL. -/
abbrev SourceRow (Text : Type) := Column → Except String (Option Text)

/-- What the rows of an INSERT share. -/
structure InsertState (Text Node : Type) where
  store : Store Text Node
  rowCount : Nat

/-- The values of all columns; no expression reads a row of the table. -/
def insertedValues (table : TableDefinition Text Node) (source : SourceRow Text) :
    Except (DmlError Text) (ColumnValues Text) :=
  assignedValues table ⟨[], []⟩ (table.columns.map fun column => ⟨column, fun _ => source column⟩)

/-- The value of a column, the lvn `col(i)`. -/
def ColumnValues.value (values : ColumnValues Text) (column : Column) : Option Text :=
  (values.lookup column).join

variable [LinearOrder Text] [OrderBot Text]

/-- The row that is inserted; `number` is its number if the key column is hidden. -/
def TableDefinition.insertedRow (table : TableDefinition Text Node) (number : Nat)
    (values : ColumnValues Text) : Row Text where
  key :=
    if table.hasHiddenColumn then [table.rowNumber number]
    else (List.range table.numKeys).map fun index => colvalue2piecevalue (values.value (.key index))
  cells := (List.range table.numCells).map fun index => values.value (.cell index)

/-- The value of the node that is stored for a row. -/
def TableDefinition.insertedNode (table : TableDefinition Text Node) (row : Row Text) : Node :=
  table.format.ofPieces (row.cells.map colvalue2piecevalue)

/-- The number of the next row. -/
def TableDefinition.nextNumber (table : TableDefinition Text Node) (store : Store Text Node) :
    Nat :=
  if table.hasHiddenColumn then store.counter + 1 else store.counter

/-- The body of the loop of `tmpl_insert_into`. -/
def insertRow (table : TableDefinition Text Node) (source : SourceRow Text)
    (state : InsertState Text Node) : Except (DmlError Text) (InsertState Text Node) :=
  let number := table.nextNumber state.store
  match insertedValues table source with
  | .error error => .error error
  | .ok values =>
    let row := table.insertedRow number values
    match checkConstraints (fun _ => true) row.value row table.checks with
    | .error error => .error error
    | .ok () =>
      match forList (constraintInsert row) table.uniques { state.store with counter := number } with
      | .error error => .error error
      | .ok store =>
        .ok
          { store := { store with data := store.data.insert row.key (table.insertedNode row) }
            rowCount := state.rowCount + 1 }

/-- `tmpl_insert_into`. -/
def tmplInsertInto (table : TableDefinition Text Node) (sources : List (SourceRow Text))
    (store : Store Text Node) : Except (DmlError Text) (InsertState Text Node) :=
  forList (insertRow table) sources { store := store, rowCount := 0 }

/-! ## One row -/

/-- What a successful pass of the loop has done. -/
structure Inserts (table : TableDefinition Text Node) (source : SourceRow Text)
    (before after : Store Text Node) (values : ColumnValues Text) : Prop where
  evaluated : insertedValues table source = .ok values
  data : after.data = before.data.insert (table.insertedRow (table.nextNumber before) values).key
    (table.insertedNode (table.insertedRow (table.nextNumber before) values))
  counter : after.counter = table.nextNumber before
  /-- A row with key columns is inserted at a free place only. -/
  free : table.hasHiddenColumn = false →
    (table.insertedRow (table.nextNumber before) values).key ∉ before.data
  reindexed : ∀ name uniqGblname columns,
    UniqueConstraint.unique name uniqGblname columns ∈ table.uniques →
      Reindexed none (tuple (table.insertedRow (table.nextNumber before) values).value columns)
        (before.indexes uniqGblname) (after.indexes uniqGblname)

omit [OrderBot Text] in
theorem notMem_data_of_forList_constraintInsert {row : Row Text}
    {constraints : List UniqueConstraint} {store after : Store Text Node} {name : String}
    (member : UniqueConstraint.primaryKey name ∈ constraints)
    (passed : forList (constraintInsert row) constraints store = .ok after) :
    row.key ∉ store.data := by
  induction constraints generalizing store with
  | nil => cases member
  | cons constraint rest ih =>
    obtain ⟨middle, step, remaining⟩ := forList_cons_eq_ok passed
    rcases List.mem_cons.mp member with rfl | later
    · intro taken
      simp [constraintInsert, taken] at step
    · rw [← (constraintInsert_indexStep step).data]
      exact ih later remaining

theorem insertRow_inserts {table : TableDefinition Text Node} {source : SourceRow Text}
    {state after : InsertState Text Node} (passed : insertRow table source state = .ok after) :
    ∃ values, Inserts table source state.store after.store values := by
  unfold insertRow at passed
  dsimp only at passed
  split at passed
  case h_1 => cases passed
  case h_2 values evaluated =>
    split at passed
    case h_1 => cases passed
    case h_2 =>
      split at passed
      case h_1 => cases passed
      case h_2 store constrained =>
        obtain rfl := Except.ok.inj passed
        have maintained := forList_maintained (fun _ _ _ => constraintInsert_indexStep)
          table.gblnames_nodup constrained
        refine ⟨values, evaluated, ?_, maintained.counter, ?_, maintained.reindexed⟩
        · simp only [maintained.data]
        · intro visible
          obtain ⟨name, member⟩ := table.exists_primaryKey visible
          have free := notMem_data_of_forList_constraintInsert member constrained
          exact free

/-- The loop over the rows of the source query ends. -/
theorem tmplInsertInto_ne_outOfFuel (table : TableDefinition Text Node)
    (sources : List (SourceRow Text)) (store : Store Text Node) :
    tmplInsertInto table sources store ≠ .error .outOfFuel := by
  intro failed
  obtain ⟨source, _, state, step⟩ := exists_of_forList_eq_error failed
  unfold insertRow at step
  dsimp only at step
  split at step
  case h_1 error failed =>
    cases step
    exact assignedValues_ne_outOfFuel _ _ _ failed
  case h_2 =>
    split at step
    case h_1 error failed =>
      cases step
      exact checkConstraints_ne_outOfFuel _ _ _ _ failed
    case h_2 =>
      split at step
      case h_1 error failed =>
        cases step
        obtain ⟨constraint, _, before, refused⟩ := exists_of_forList_eq_error failed
        exact constraintInsert_ne_outOfFuel _ _ _ refused
      case h_2 => cases step

end Octo.Dml
