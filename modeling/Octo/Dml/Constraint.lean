import Octo.Dml.Table
import Octo.Foundation.Sweep
import Octo.Foundation.UniqueIndex

/-!
# Constraints of a statement that writes rows

What `tmpl_constraint` emits for one row. CHECK constraints come first, then the list with the
PRIMARY KEY and the UNIQUE constraints. An UPDATE emits only the constraints that have a column in
its SET list; it removes the old tuple from the global of a UNIQUE constraint before it looks for
the new one. Tuples with a NULL are neither looked for nor stored.
-/
namespace Octo.Dml

open Kleene Sweep UniqueIndex List UniqueConstraint Option

variable {Text Node : Type}

/-- A new value of a column. The expression reads a row and can fail. -/
structure Assignment (Text : Type) where
  column : Column
  value : Row Text → Except String (Option Text)

/-- Evaluates the new values. A column that must not be NULL is checked right away. -/
def assignedValues (table : TableDefinition Text Node) (row : Row Text) :
    List (Assignment Text) → Except (DmlError Text) (ColumnValues Text)
  | [] => .ok []
  | assignment :: rest =>
    match assignment.value row with
    | .error message => .error (.expression message)
    | .ok value =>
      if value.isNone && table.isNotNull assignment.column then
        .error (.nullColValue assignment.column)
      else
        match assignedValues table row rest with
        | .error error => .error error
        | .ok values => .ok ((assignment.column, value) :: values)

/-- The CHECK constraints, of which the emitted ones must not be false. -/
def checkConstraints (emits : CheckConstraint Text → Bool) (read : Column → Option Text)
    (failing : Row Text) : List (CheckConstraint Text) → Except (DmlError Text) Unit
  | [] => .ok ()
  | constraint :: rest =>
    if emits constraint && decide (constraint.condition read = .false) then
      .error (.checkConstraintViolation constraint.name failing)
    else checkConstraints emits read failing rest

/-- The subscripts under which a UNIQUE constraint stores a row, unless a column is NULL. -/
def tuple (read : Column → Option Text) (columns : List Column) : Option (List Text) :=
  columns.mapM read

/-- The store with another global of a UNIQUE constraint. -/
def Store.setIndex (store : Store Text Node) (gblname : String) (index : Finset (List Text)) :
    Store Text Node :=
  { store with indexes := Function.update store.indexes gblname index }

theorem Store.setIndex_setIndex (store : Store Text Node) (gblname : String)
    (first second : Finset (List Text)) :
    (store.setIndex gblname first).setIndex gblname second = store.setIndex gblname second := by
  simp [Store.setIndex]

variable {row : Row Text} {values : ColumnValues Text} {name : String} {columns : List Column}
    {store after : Store Text Node} {constraint : UniqueConstraint}

section

variable {table : TableDefinition Text Node} {assignments : List (Assignment Text)}

/-- What is known of the first value and of the others. -/
theorem assignedValues_cons_eq_ok {assignment : Assignment Text}
    (evaluated : assignedValues table row (assignment :: assignments) = .ok values) :
    ∃ value others, assignment.value row = .ok value ∧
      (table.isNotNull assignment.column = true → value.isSome = true) ∧
      assignedValues table row assignments = .ok others ∧
      values = (assignment.column, value) :: others := by
  rw [assignedValues] at evaluated
  split at evaluated
  case h_1 => cases evaluated
  case h_2 value found =>
    split at evaluated
    case isTrue => cases evaluated
    case isFalse passes =>
      split at evaluated
      case h_1 => cases evaluated
      case h_2 others evaluatedRest =>
        cases evaluated
        exact ⟨value, others, found, by cases value <;> simp_all, evaluatedRest, rfl⟩

variable (evaluated : assignedValues table row assignments = .ok values)
include evaluated

theorem map_fst_assignedValues : values.map Prod.fst = assignments.map (·.column) := by
  induction assignments generalizing values with
  | nil =>
    cases evaluated
    rfl
  | cons assignment rest ih =>
    obtain ⟨value, others, -, -, found, rfl⟩ := assignedValues_cons_eq_ok evaluated
    simp [ih found]

/-- A column that must not be NULL has a value. -/
theorem isSome_of_assignedValues :
    ∀ entry ∈ values, table.isNotNull entry.1 = true → entry.2.isSome = true := by
  induction assignments generalizing values with
  | nil =>
    cases evaluated
    simp
  | cons assignment rest ih =>
    obtain ⟨value, others, -, passes, found, rfl⟩ := assignedValues_cons_eq_ok evaluated
    rw [forall_mem_cons]
    exact ⟨passes, ih found⟩

end

theorem assignedValues_ne_outOfFuel (table : TableDefinition Text Node) (row : Row Text)
    (assignments : List (Assignment Text)) :
    assignedValues table row assignments ≠ .error .outOfFuel := by
  induction assignments with
  | nil => simp [assignedValues]
  | cons assignment rest ih =>
    rw [assignedValues]
    split
    case h_1 => simp
    case h_2 =>
      split
      case isTrue => simp
      case isFalse =>
        split
        case h_1 error failed =>
          intro same
          exact ih (failed.trans same)
        case h_2 => simp

theorem checkConstraints_ne_outOfFuel (emits : CheckConstraint Text → Bool)
    (read : Column → Option Text) (failing : Row Text) (checks : List (CheckConstraint Text)) :
    checkConstraints emits read failing checks ≠ .error .outOfFuel := by
  induction checks with
  | nil => simp [checkConstraints]
  | cons constraint rest ih =>
    rw [checkConstraints]
    split
    case isTrue => simp
    case isFalse => exact ih

variable [DecidableEq Text]

/-- `KILL gbl(old tuple)`. -/
def killTuple (read : Column → Option Text) (columns : List Column) (gblname : String)
    (store : Store Text Node) : Store Text Node :=
  match tuple read columns with
  | none => store
  | some old => store.setIndex gblname ((store.indexes gblname).erase old)

/-- `DO:$DATA(gbl(new tuple)) DuplicateKeyValue` and `SET gbl(new tuple)=""`. -/
def setTuple (name : String) (read : Column → Option Text) (columns : List Column)
    (gblname : String) (store : Store Text Node) : Except (DmlError Text) (Store Text Node) :=
  match tuple read columns with
  | none => .ok store
  | some new =>
    if new ∈ store.indexes gblname then
      .error (.duplicateKeyValue name columns (columns.map read))
    else .ok (store.setIndex gblname (insert new (store.indexes gblname)))

/-- The key columns of a row. -/
def keyColumns (key : List Text) : List Column :=
  (List.range key.length).map .key

/-- A PRIMARY KEY or UNIQUE constraint in an UPDATE of a row. -/
def constraintUpdate (row : Row Text) (values : ColumnValues Text)
    (constraint : UniqueConstraint) (store : Store Text Node) :
    Except (DmlError Text) (Store Text Node) :=
  match constraint with
  | .primaryKey name =>
    let newKey := values.updatedKey row.key
    -- The node of the row itself is not yet gone, so that only a changed key is looked for.
    if values.setsKey && decide (newKey ≠ row.key) && decide (newKey ∈ store.data) then
      .error (.duplicateKeyValue name (keyColumns row.key) (newKey.map some))
    else .ok store
  | .unique name uniqGblname columns =>
    if values.meets columns then
      setTuple name (values.updatedValue row) columns uniqGblname
        (killTuple row.value columns uniqGblname store)
    else .ok store

/-- A PRIMARY KEY or UNIQUE constraint in an INSERT of a row. -/
def constraintInsert (row : Row Text) (constraint : UniqueConstraint) (store : Store Text Node) :
    Except (DmlError Text) (Store Text Node) :=
  match constraint with
  | .primaryKey name =>
    if row.key ∈ store.data then
      .error (.duplicateKeyValue name (keyColumns row.key) (row.key.map some))
    else .ok store
  | .unique name uniqGblname columns => setTuple name row.value columns uniqGblname store

/-- A UNIQUE constraint in a DELETE of a row. -/
def constraintDelete (row : Row Text) (constraint : UniqueConstraint) (store : Store Text Node) :
    Except (DmlError Text) (Store Text Node) :=
  match constraint with
  | .primaryKey _ => .ok store
  | .unique _ uniqGblname columns => .ok (killTuple row.value columns uniqGblname store)

/-! ## What the constraints do to the store -/

/-- What a constraint does for a row that has the tuples `old` before the statement and `new` after
it: it writes to its own global only. -/
structure IndexStep (old new : List Column → Option (List Text)) (constraint : UniqueConstraint)
    (before after : Store Text Node) : Prop where
  data : after.data = before.data
  counter : after.counter = before.counter
  others : ∀ gblname, constraint.gblname? ≠ some gblname →
    after.indexes gblname = before.indexes gblname
  reindexed : ∀ name uniqGblname columns, constraint = .unique name uniqGblname columns →
    Reindexed (old columns) (new columns) (before.indexes uniqGblname) (after.indexes uniqGblname)

omit [DecidableEq Text] in
/-- The PRIMARY KEY constraint reads the rows only. -/
theorem indexStep_primaryKey (old new : List Column → Option (List Text)) (name : String)
    (store : Store Text Node) : IndexStep old new (.primaryKey name) store store := by
  refine ⟨rfl, rfl, fun _ _ => rfl, ?_⟩
  rintro _ _ _ ⟨⟩

variable {old new : List Column → Option (List Text)} {constraints : List UniqueConstraint}

omit [DecidableEq Text] in
/-- A UNIQUE constraint that replaces its own global. -/
theorem indexStep_setIndex {uniqGblname : String} {index : Finset (List Text)}
    (reindexed : Reindexed (old columns) (new columns) (store.indexes uniqGblname) index) :
    IndexStep old new (.unique name uniqGblname columns) store
      (store.setIndex uniqGblname index) := by
  refine ⟨rfl, rfl, ?_, ?_⟩
  · intro gblname other
    exact Function.update_of_ne (fun same => other (congrArg some same.symm)) ..
  · rintro _ _ _ ⟨⟩
    simpa [Store.setIndex] using reindexed

/-- The global without the old tuple. -/
def without (old : Option (List Text)) (index : Finset (List Text)) : Finset (List Text) :=
  index.filter fun entry => some entry ≠ old

theorem killTuple_eq (read : Column → Option Text) (columns : List Column) (gblname : String)
    (store : Store Text Node) :
    killTuple read columns gblname store =
      store.setIndex gblname (without (tuple read columns) (store.indexes gblname)) := by
  unfold killTuple
  split
  case h_1 isNull => simp [isNull, without, Store.setIndex]
  case h_2 old isOld =>
    congr 1
    ext entry
    simp [isOld, without, and_comm]

/-- A new tuple is put into the global unless it is there. -/
theorem setTuple_eq_ok {read : Column → Option Text} {gblname : String}
    (passed : setTuple name read columns gblname store = .ok after) :
    ∃ index, after = store.setIndex gblname index ∧
      (∀ entry, entry ∈ index ↔ entry ∈ store.indexes gblname ∨ some entry = tuple read columns) ∧
      ∀ entry, some entry = tuple read columns → entry ∉ store.indexes gblname := by
  unfold setTuple at passed
  split at passed
  case h_1 isNull =>
    cases passed
    exact ⟨store.indexes gblname, by simp [Store.setIndex], by simp [isNull], by simp [isNull]⟩
  case h_2 new isNew =>
    split at passed
    case isTrue => cases passed
    case isFalse free =>
      cases passed
      refine ⟨_, rfl, fun entry => ?_, fun entry isEntry => ?_⟩
      · simp [isNew, or_comm]
      · obtain rfl := some.inj (isEntry.trans isNew)
        exact free

omit [DecidableEq Text] in
theorem tuple_congr {read other : Column → Option Text}
    (same : ∀ column ∈ columns, read column = other column) :
    tuple read columns = tuple other columns := by
  unfold tuple
  induction columns with
  | nil => rfl
  | cons column rest ih =>
    rw [mapM_cons, mapM_cons, same column (mem_cons_self ..),
      ih (forall_mem_of_forall_mem_cons same)]

omit [DecidableEq Text] in
/-- Columns that have no new value have their old tuple. -/
theorem tuple_updatedValue (apart : values.meets columns = false) (row : Row Text) :
    tuple (values.updatedValue row) columns = tuple row.value columns := by
  have sameValue : ∀ column ∈ columns, values.updatedValue row column = row.value column := by
    intro column member
    have absent := any_eq_false.mp apart column member
    rw [ColumnValues.updatedValue, not_isSome_iff_eq_none.mp absent, getD_none]
  exact tuple_congr sameValue

theorem constraintUpdate_indexStep
    (passed : constraintUpdate row values constraint store = .ok after) :
    IndexStep (tuple row.value) (tuple (values.updatedValue row)) constraint store after := by
  cases constraint with
  | primaryKey name =>
    simp only [constraintUpdate] at passed
    split at passed
    · cases passed
    · cases passed
      exact indexStep_primaryKey ..
  | unique name uniqGblname columns =>
    simp only [constraintUpdate] at passed
    split at passed
    case isTrue =>
      obtain ⟨index, rfl, mem_iff, free⟩ := setTuple_eq_ok passed
      rw [killTuple_eq] at mem_iff free ⊢
      rw [Store.setIndex_setIndex]
      refine indexStep_setIndex (.replaced ?_ ?_)
      · simpa [Store.setIndex, without] using mem_iff
      · intro entry isNew member
        by_contra notOld
        exact free entry isNew (by simpa [Store.setIndex, without] using ⟨member, notOld⟩)
    case isFalse apart =>
      cases passed
      have sameTuple := tuple_updatedValue (by simpa using apart) row
      refine ⟨rfl, rfl, fun _ _ => rfl, ?_⟩
      rintro _ _ _ ⟨⟩
      exact .unchanged sameTuple.symm rfl

theorem constraintInsert_indexStep (passed : constraintInsert row constraint store = .ok after) :
    IndexStep (fun _ => none) (tuple row.value) constraint store after := by
  cases constraint with
  | primaryKey name =>
    simp only [constraintInsert] at passed
    split at passed
    · cases passed
    · cases passed
      exact indexStep_primaryKey ..
  | unique name uniqGblname columns =>
    obtain ⟨index, rfl, mem_iff, free⟩ := setTuple_eq_ok passed
    refine indexStep_setIndex (.replaced ?_ ?_)
    · simpa using mem_iff
    · intro entry isNew member
      exact absurd member (free entry isNew)

theorem constraintDelete_indexStep (passed : constraintDelete row constraint store = .ok after) :
    IndexStep (tuple row.value) (fun _ => none) constraint store after := by
  cases constraint with
  | primaryKey name =>
    cases passed
    exact indexStep_primaryKey ..
  | unique name uniqGblname columns =>
    cases passed
    rw [killTuple_eq]
    refine indexStep_setIndex (.replaced ?_ ?_) <;> simp [without]

/-- What a list of constraints, each with a global of its own, does for a row. -/
structure Maintained (old new : List Column → Option (List Text))
    (constraints : List UniqueConstraint) (before after : Store Text Node) : Prop where
  data : after.data = before.data
  counter : after.counter = before.counter
  others : ∀ gblname ∉ constraints.filterMap UniqueConstraint.gblname?,
    after.indexes gblname = before.indexes gblname
  reindexed : ∀ name uniqGblname columns,
    UniqueConstraint.unique name uniqGblname columns ∈ constraints →
      Reindexed (old columns) (new columns) (before.indexes uniqGblname)
        (after.indexes uniqGblname)

omit [DecidableEq Text] in
theorem forList_maintained
    {step : UniqueConstraint → Store Text Node → Except (DmlError Text) (Store Text Node)}
    (steps : ∀ constraint before after, step constraint before = .ok after →
      IndexStep old new constraint before after) (nodup : (constraints.filterMap gblname?).Nodup)
    (passed : forList step constraints store = .ok after) :
    Maintained old new constraints store after := by
  induction constraints generalizing store with
  | nil =>
    cases passed
    exact ⟨rfl, rfl, fun _ _ => rfl, by simp⟩
  | cons constraint rest ih =>
    obtain ⟨middle, first, remaining⟩ := forList_cons_eq_ok passed
    have head := steps constraint store middle first
    have tail := ih (nodup.sublist ((sublist_cons_self ..).filterMap _)) remaining
    refine ⟨tail.data.trans head.data, tail.counter.trans head.counter, ?_, ?_⟩
    · intro gblname absent
      have notHead : constraint.gblname? ≠ some gblname := fun same =>
        absent (mem_filterMap.mpr ⟨constraint, mem_cons_self .., same⟩)
      have notTail : gblname ∉ rest.filterMap gblname? := fun member =>
        absent (((sublist_cons_self ..).filterMap _).subset member)
      exact (tail.others gblname notTail).trans (head.others gblname notHead)
    · intro name uniqGblname columns member
      rcases mem_cons.mp member with rfl | later
      · -- The rest of the list does not write to the global of the first constraint.
        have notTail : uniqGblname ∉ rest.filterMap gblname? :=
          (nodup_cons.mp nodup).1
        rw [tail.others uniqGblname notTail]
        exact head.reindexed name uniqGblname columns rfl
      · have notHead : constraint.gblname? ≠ some uniqGblname := by
          intro same
          rw [filterMap_cons_some same] at nodup
          exact (nodup_cons.mp nodup).1 (mem_filterMap.mpr ⟨_, later, rfl⟩)
        rw [← head.others uniqGblname notHead]
        exact tail.reindexed name uniqGblname columns later

/-- An UPDATE that passes its PRIMARY KEY constraint moves a row to a free place only. -/
theorem notMem_data_of_forList_constraintUpdate
    (member : UniqueConstraint.primaryKey name ∈ constraints) (setsKey : values.setsKey = true)
    (changed : values.updatedKey row.key ≠ row.key)
    (passed : forList (constraintUpdate row values) constraints store = .ok after) :
    values.updatedKey row.key ∉ store.data := by
  induction constraints generalizing store with
  | nil => cases member
  | cons constraint rest ih =>
    obtain ⟨middle, step, remaining⟩ := forList_cons_eq_ok passed
    rw [← (constraintUpdate_indexStep step).data]
    rcases mem_cons.mp member with rfl | later
    · rw [(constraintUpdate_indexStep step).data]
      intro taken
      simp [constraintUpdate, setsKey, changed, taken] at step
    · exact ih later remaining

/-! ## Errors -/

theorem setTuple_ne_outOfFuel (name : String) (read : Column → Option Text)
    (columns : List Column) (gblname : String) (store : Store Text Node) :
    setTuple name read columns gblname store ≠ .error .outOfFuel := by
  unfold setTuple
  split
  · simp
  · split <;> simp

theorem constraintUpdate_ne_outOfFuel (row : Row Text) (values : ColumnValues Text)
    (constraint : UniqueConstraint) (store : Store Text Node) :
    constraintUpdate row values constraint store ≠ .error .outOfFuel := by
  cases constraint with
  | primaryKey name =>
    simp only [constraintUpdate]
    split <;> simp
  | unique name uniqGblname columns =>
    simp only [constraintUpdate]
    split
    · exact setTuple_ne_outOfFuel _ _ _ _ _
    · simp

theorem constraintInsert_ne_outOfFuel (row : Row Text) (constraint : UniqueConstraint)
    (store : Store Text Node) : constraintInsert row constraint store ≠ .error .outOfFuel := by
  cases constraint with
  | primaryKey name =>
    simp only [constraintInsert]
    split <;> simp
  | unique name uniqGblname columns => exact setTuple_ne_outOfFuel _ _ _ _ _

end Octo.Dml
