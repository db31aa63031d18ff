import Octo.Dml.Constraint
import Octo.Dml.ScanPlan

/-!
# UPDATE

An UPDATE scans its table with one plan for each disjunct of the WHERE clause and rewrites the rows
during the scan. A row whose key columns are assigned moves to another node, and a row that is found
by the cross reference of a column moves in the cross reference when the column is assigned, ahead
of the scan or behind it. The plans share two local variables: `%ydboctoUPD` has the keys that were
written, so that a row that moved is not taken for one to be updated, and `%ydboctozduplicate` has
the keys, before the update, of the rows that a plan has updated.
-/
namespace Octo.Dml

open Kleene Sweep

variable {Text Node : Type} [LinearOrder Text] [OrderBot Text] {table : TableDefinition Text Node}

/-- An UPDATE statement with its plans. -/
structure UpdateStatement (table : TableDefinition Text Node) where
  assignments : List (Assignment Text)
  siblings : List (ScanPlan table)
  /-- Assigning a column twice is an error (`update_statement`). -/
  columns_nodup : (assignments.map (·.column)).Nodup
  /-- A hidden key column cannot be assigned. -/
  column_mem : ∀ assignment ∈ assignments, assignment.column ∈ table.columns
  loops_length : ∀ sibling ∈ siblings,
    sibling.loops.length = table.numKeys + if sibling.xref.isSome then 1 else 0

/-- What the plans of an UPDATE share. -/
structure UpdateState (Text Node : Type) where
  store : Store Text Node
  /-- The subscripts of `%ydboctoUPD`. -/
  upd : Finset (List Text)
  /-- The subscripts of `%ydboctozduplicate`. -/
  zduplicate : Finset (List Text)
  rowCount : Nat

/-- At least one key column is in the SET list. -/
def UpdateStatement.setsKey (update : UpdateStatement table) : Bool :=
  update.assignments.any fun assignment => assignment.column.isKey

/-- `is_update_keycol_or_xref`. -/
def UpdateStatement.isUpdateKeycolOrXref (update : UpdateStatement table)
    (sibling : ScanPlan table) : Bool :=
  sibling.xref.isSome || update.setsKey

/-- Several plans check whether another one has updated the row. -/
def UpdateStatement.emitDuplicationCheck (update : UpdateStatement table) : Bool :=
  decide (1 < update.siblings.length)

/-- `tmpl_update_record_in_table`. -/
def tmplUpdateRecordInTable (update : UpdateStatement table) (sibling : ScanPlan table)
    (key : List Text) (node : Node) (state : UpdateState Text Node) :
    Except (DmlError Text) (UpdateState Text Node) :=
  let row := table.readRow key node
  match assignedValues table row update.assignments with
  | .error error => .error error
  | .ok values =>
    match checkConstraints (values.meets ·.columns) (values.updatedValue row)
        (row.assign values) table.checks with
    | .error error => .error error
    | .ok () =>
      match forList (constraintUpdate row values) table.uniques state.store with
      | .error error => .error error
      | .ok store =>
        let newKey := values.updatedKey key
        let newNode := values.updatedNode table.format node
        let data :=
          if update.setsKey then (store.data.erase key).insert newKey newNode
          else store.data.insert key newNode
        .ok
          { store := { store with data := data }
            upd :=
              if update.isUpdateKeycolOrXref sibling then insert newKey state.upd
              else state.upd
            zduplicate :=
              if update.emitDuplicationCheck then insert key state.zduplicate
              else state.zduplicate
            rowCount := state.rowCount + 1 }

/-- What `tmpl_tablejoin` and `tmpl_tablejoin_body` emit inside of the loops. -/
def updateBody (update : UpdateStatement table) (sibling : ScanPlan table)
    (path : List Text) (state : UpdateState Text Node) :
    Except (DmlError Text) (UpdateState Text Node) :=
  let key := sibling.keyOf path
  if update.isUpdateKeycolOrXref sibling && decide (key ∈ state.upd) then .ok state
  else if update.emitDuplicationCheck && decide (key ∈ state.zduplicate) then .ok state
  else
    match state.store.data.lookup key with
    | none => .error .gvundef
    | some node =>
      if sibling.remaining (table.readRow key node) = .true then
        tmplUpdateRecordInTable update sibling key node state
      else .ok state

/-- The scan of one plan. -/
def ScanPlan.scan (update : UpdateStatement table) (fuel : Nat)
    (sibling : ScanPlan table) :
    KeyScan Text (UpdateState Text Node) (DmlError Text) where
  paths := fun state => sibling.paths state.store.data
  body := updateBody update sibling
  fuel := fuel
  exhausted := .outOfFuel

/-- `tmpl_update_table` for all plans: the local variables are killed before the first one. -/
def tmplUpdateTable (update : UpdateStatement table) (fuel : Nat) (store : Store Text Node) :
    Except (DmlError Text) (UpdateState Text Node) :=
  forList (fun sibling => (sibling.scan update fuel).scanKeys sibling.loops []) update.siblings
    { store := store, upd := ∅, zduplicate := ∅, rowCount := 0 }

end Octo.Dml
