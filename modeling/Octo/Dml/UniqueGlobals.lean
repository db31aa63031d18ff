import Octo.Dml.Delete
import Octo.Dml.Insert
import Octo.Dml.UpdateCorrect

/-!
# The globals of UNIQUE constraints

INSERT, UPDATE and DELETE are transactions that write to a table and to the globals of its UNIQUE
constraints. Each of these globals should have one node for each row whose constrained columns are
all not NULL, and nothing else. The statements take the tuples from the values that they were given,
while later statements, and queries, read them from the nodes of the table. The two are the same as
long as the tuples of the rows that are written are read back, and then the globals are right after
every statement.
-/
namespace Octo.Dml

open Sweep UniqueIndex List Option Finmap TableDefinition Store UniqueConstraint UpdateStatement
  Function ColumnValues Except

variable {Text Node : Type} {table : TableDefinition Text Node}

/-! ## Statements -/

/-- A number of passes that no loop of a scan exceeds. -/
def Store.passes (store : Store Text Node) : Nat :=
  2 * store.data.keys.card + 1

theorem Store.card_lt_passes (store : Store Text Node) : store.data.keys.card < store.passes := by
  unfold Store.passes
  omega

theorem exists_of_map_eq_ok {State : Type} {result : Except (DmlError Text) State}
    {part : State → Store Text Node} {after : Store Text Node} (passed : result.map part =
      .ok after) :
    ∃ final, result = .ok final ∧ part final = after := by
  cases result with
  | error error => cases passed
  | ok final =>
    cases passed
    exact ⟨final, rfl, rfl⟩

theorem map_ne_outOfFuel {State : Type} {result : Except (DmlError Text) State}
    (noFuelError : result ≠ .error .outOfFuel) (part : State → Store Text Node) :
    result.map part ≠ .error .outOfFuel := by
  cases result with
  | error error =>
    rintro ⟨⟩
    exact noFuelError rfl
  | ok final => rintro ⟨⟩

variable [LinearOrder Text] [OrderBot Text] {before after : Store Text Node}

/-- A statement that writes to a table. -/
inductive Statement (table : TableDefinition Text Node) where
  | insert (sources : List (SourceRow Text))
  | update (update : UpdateStatement table)
  | delete (delete : DeleteStatement table)

/-- Runs a statement. -/
def Statement.execute (statement : Statement table) (store : Store Text Node) :
    Except (DmlError Text) (Store Text Node) :=
  match statement with
  | .insert sources => (tmplInsertInto table sources store).map (·.store)
  | .update rewriting => (tmplUpdateTable rewriting store.passes store).map (·.store)
  | .delete removal => (tmplDeleteFrom removal store.passes store).map (·.store)

/-- A statement is a transaction: an error rolls it back. -/
def Statement.transact (statement : Statement table) (store : Store Text Node) : Store Text Node :=
  match statement.execute store with
  | .error _ => store
  | .ok after => after

/-- The globals of a table that was just created. -/
def Store.created : Store Text Node where
  data := ∅
  counter := 0
  indexes := fun _ => ∅

/-! ## The globals of a table -/

/-- The values of some columns in the row at a key, unless one of them is NULL. -/
def Store.tupleAt (table : TableDefinition Text Node) (columns : List Column)
    (store : Store Text Node) (key : List Text) : Option (List Text) :=
  (store.data.lookup key).bind fun node => tuple (table.readRow key node).value columns

/-- The global of every UNIQUE constraint has the tuples of the rows and nothing else, and no two
rows have the same tuple. -/
def UniqueGlobals (table : TableDefinition Text Node) (store : Store Text Node) : Prop :=
  ∀ name uniqGblname columns, UniqueConstraint.unique name uniqGblname columns ∈ table.uniques →
    Indexes (store.indexes uniqGblname) (store.tupleAt table columns)

/-- What every statement can rely on. -/
structure Consistent (table : TableDefinition Text Node) (store : Store Text Node) : Prop where
  globals : UniqueGlobals table store
  length_eq : ∀ key ∈ store.data, key.length = table.numKeys
  /-- The number of the next row is free. -/
  numbered : table.hasHiddenColumn = true → ∀ key ∈ store.data,
    ∃ number ≤ store.counter, key = [table.rowNumber number]

/-- Both rows have the same tuples. -/
def TableDefinition.SameTuples (table : TableDefinition Text Node) (row read : Row Text) : Prop :=
  ∀ name uniqGblname columns, UniqueConstraint.unique name uniqGblname columns ∈ table.uniques →
    tuple row.value columns = tuple read.value columns

/-- The rows that a statement writes are read back with the tuples that they were given. -/
def Statement.ReadsBack (statement : Statement table) (store : Store Text Node) : Prop :=
  match statement with
  | .insert sources => ∀ source ∈ sources, ∀ values, insertedValues table source = .ok values →
      ∀ number, table.SameTuples (table.insertedRow number values)
        (table.readRow (table.insertedRow number values).key
          (table.insertedNode (table.insertedRow number values)))
  | .update rewriting => ∀ key node, store.data.lookup key = some node →
      rewriting.Qualifies (table.readRow key node) →
        ∀ newKey newNode image, rewriting.storedImage key node = .ok (newKey, newNode) →
          rewriting.setImage (table.readRow key node) = .ok image →
            table.SameTuples image (table.readRow newKey newNode)
  | .delete _ => True

/-! ## Writes -/

section Writes

variable {oldKey newKey : List Text} {written : Option Node}

theorem Store.tupleAt_of_notMem {store : Store Text Node} {key : List Text}
    (absent : key ∉ store.data) (columns : List Column) :
    store.tupleAt table columns key = none := by
  rw [tupleAt, lookup_eq_none.mpr absent, bind_none]

variable
  (lookup : ∀ other, after.data.lookup other =
    if other = newKey then written
    else if other = oldKey then none
    else before.data.lookup other)
include lookup

/-- A write changes the tuples at the keys that it writes. -/
theorem Store.tupleAt_written (columns : List Column) :
    after.tupleAt table columns = moved (before.tupleAt table columns) oldKey newKey
      (written.bind fun node => tuple (table.readRow newKey node).value columns) := by
  ext1 key
  unfold tupleAt moved
  rw [lookup]
  by_cases atNew : key = newKey
  · subst atNew
    rw [if_pos rfl, update_self]
  · rw [if_neg atNew, update_of_ne atNew]
    by_cases atOld : key = oldKey
    · subst atOld
      rw [if_pos rfl, update_self, bind_none]
    · rw [if_neg atOld, update_of_ne atOld]

/-- A write keeps the globals right if and only if the tuples that it has put into them are read
back. -/
theorem UniqueGlobals.write_iff (globals : UniqueGlobals table before)
    (free : newKey ≠ oldKey → newKey ∉ before.data) {new : List Column → Option (List Text)}
    (reindexed : ∀ name uniqGblname columns,
      unique name uniqGblname columns ∈ table.uniques →
        Reindexed (before.tupleAt table columns oldKey) (new columns)
          (before.indexes uniqGblname) (after.indexes uniqGblname)) :
    UniqueGlobals table after ↔ ∀ name uniqGblname columns,
      unique name uniqGblname columns ∈ table.uniques →
        (written.bind fun node => tuple (table.readRow newKey node).value columns) =
          new columns := by
  refine forall₄_congr fun name uniqGblname columns member => ?_
  rw [tupleAt_written lookup]
  refine (globals name uniqGblname columns member).moved_iff ?_
    (reindexed name uniqGblname columns member)
  exact fun moves => tupleAt_of_notMem (free moves) columns

end Writes

/-! ## The rows of a statement -/

theorem TableDefinition.length_key_insertedRow (table : TableDefinition Text Node) (number : Nat)
    (values : ColumnValues Text) :
    (table.insertedRow number values).key.length = table.numKeys := by
  unfold insertedRow
  split
  case isTrue hidden => simp [table.hidden_numKeys hidden]
  case isFalse => simp

variable {values : ColumnValues Text} {source : SourceRow Text} {store : Store Text Node}

/-- The number of a row is in no tuple, since a hidden column is in no constraint. -/
theorem TableDefinition.sameTuples_number {number : Nat}
    (same : table.SameTuples (table.insertedRow number values) (table.readRow
      (table.insertedRow number values).key (table.insertedNode (table.insertedRow number values))))
    (other : Nat) :
    table.SameTuples (table.insertedRow other values)
      (table.readRow (table.insertedRow other values).key
        (table.insertedNode (table.insertedRow other values))) := by
  intro name uniqGblname columns member
  have declared := table.unique_columns name uniqGblname columns member
  refine Eq.trans ?_ ((same name uniqGblname columns member).trans ?_)
  all_goals
    apply tuple_congr
    intro column inColumns
    have visible := (table.mem_columns column).mp (declared column inColumns)
    cases column with
    | key index => simp [insertedRow, visible.1]
    | cell index => rfl

section

variable (consistent : Consistent table before) (inserts : Inserts table source before after values)
include consistent inserts

/-- The next row of a table gets a key that is free. -/
theorem Consistent.notMem_data :
    (table.insertedRow (table.nextNumber before) values).key ∉ before.data := by
  cases hidden : table.hasHiddenColumn with
  | false => exact inserts.free hidden
  | true =>
    intro taken
    obtain ⟨number, earlier, same⟩ := consistent.numbered hidden _ taken
    have sameNumber : table.nextNumber before = number := by
      apply table.hidden_rowNumber hidden
      simpa [insertedRow, hidden] using same
    simp only [nextNumber, hidden, if_true] at sameNumber
    omega

/-- The globals are right after a row was inserted if and only if its tuples are read back. -/
theorem Consistent.insert_globals_iff :
    UniqueGlobals table after ↔ table.SameTuples
      (table.insertedRow (table.nextNumber before) values)
      (table.readRow (table.insertedRow (table.nextNumber before) values).key
        (table.insertedNode (table.insertedRow (table.nextNumber before) values))) := by
  have lookup : ∀ other, after.data.lookup other =
      if other = (table.insertedRow (table.nextNumber before) values).key then
        some (table.insertedNode (table.insertedRow (table.nextNumber before) values))
      else if other = (table.insertedRow (table.nextNumber before) values).key then none
      else before.data.lookup other := by
    intro other
    rw [inserts.data, ← insert_erase_self, lookup_insert_erase]
  have exactly := consistent.globals.write_iff lookup (fun moves => absurd rfl moves)
    (fun name uniqGblname columns member => by
      rw [tupleAt_of_notMem (consistent.notMem_data inserts)]
      exact inserts.reindexed name uniqGblname columns member)
  rw [exactly]
  exact forall₄_congr fun _ _ _ _ => eq_comm

theorem Consistent.insert (globals : UniqueGlobals table after) : Consistent table after := by
  constructor
  case globals => exact globals
  case length_eq =>
    intro key member
    rw [inserts.data, mem_insert] at member
    rcases member with rfl | earlier
    · exact table.length_key_insertedRow _ values
    · exact consistent.length_eq key earlier
  case numbered =>
    intro hidden key member
    rw [inserts.data, mem_insert] at member
    rw [inserts.counter, nextNumber, if_pos hidden]
    rcases member with rfl | earlier
    · refine ⟨before.counter + 1, le_rfl, ?_⟩
      simp [insertedRow, nextNumber, hidden]
    · obtain ⟨number, bounded, same⟩ := consistent.numbered hidden key earlier
      exact ⟨number, bounded.trans (Nat.le_succ _), same⟩

end

theorem keepsRemovals_consistent : KeepsRemovals table (Consistent table) := by
  intro before after key node consistent found removes
  have subset : ∀ other ∈ after.data, other ∈ before.data := by
    intro other member
    rw [removes.data] at member
    exact (mem_erase.mp member).2
  constructor
  case globals =>
    have lookup : ∀ other, after.data.lookup other =
        if other = key then none
        else if other = key then none
        else before.data.lookup other := by
      intro other
      rw [removes.data]
      split
      case isTrue same =>
        subst same
        exact lookup_erase _ _
      case isFalse differs => exact lookup_erase_ne differs
    have exactly := consistent.globals.write_iff lookup (fun moves => absurd rfl moves)
      (fun name uniqGblname columns member => by
        rw [tupleAt, found]
        exact removes.reindexed name uniqGblname columns member)
    exact exactly.mpr fun _ _ _ _ => rfl
  case length_eq => exact fun other member => consistent.length_eq other (subset other member)
  case numbered =>
    intro hidden other member
    rw [removes.counter]
    exact consistent.numbered hidden other (subset other member)

omit [LinearOrder Text] [OrderBot Text] in
/-- The tuples that an UPDATE puts into the globals are those of the row with the new values. -/
theorem tuple_assign {row : Row Text} {columns : List Column}
    (evaluated : ∀ entry ∈ values, table.isNotNull entry.1 = true → entry.2.isSome = true)
    (keyLength : row.key.length = table.numKeys) (cellsLength : row.cells.length = table.numCells)
    (inTable : ∀ column ∈ columns, column ∈ table.columns) :
    tuple (row.assign values).value columns = tuple (values.updatedValue row) columns := by
  apply tuple_congr
  intro column member
  have declared := (table.mem_columns column).mp (inTable column member)
  cases column with
  | key index =>
    obtain ⟨old, isOld⟩ : ∃ old, row.key[index]? = some old := by
      rw [← isSome_iff_exists]
      simpa [keyLength] using declared.2
    simp only [Row.assign, Row.value, updatedKey, updatedValue,
      getElem?_mapIdx, isOld]
    cases found : values.lookup (.key index) with
    | none => rfl
    | some value =>
      obtain ⟨earlier, later, split, _⟩ := lookup_eq_some_iff.mp found
      have notNull := evaluated (.key index, value) (by simp [split]) rfl
      obtain ⟨text, rfl⟩ := isSome_iff_exists.mp notNull
      rfl
  | cell index =>
    obtain ⟨old, isOld⟩ : ∃ old, row.cells[index]? = some old := by
      rw [← isSome_iff_exists]
      simpa [cellsLength] using declared
    simp only [Row.assign, Row.value, updatedValue, getElem?_mapIdx, isOld,
      map_some, join_some]

/-- What is read of an UPDATE that has evaluated its SET list. -/
theorem UpdateStatement.images {update : UpdateStatement table} {key newKey : List Text}
    {node newNode : Node} (stored : update.storedImage key node = .ok (newKey, newNode)) :
    ∃ values, assignedValues table (table.readRow key node) update.assignments = .ok values ∧
      update.setImage (table.readRow key node) = .ok ((table.readRow key node).assign values) := by
  obtain ⟨values, evaluated, -⟩ := exists_values_of_storedImage stored
  exact ⟨values, evaluated, by simp [setImage, evaluated]⟩

theorem keepsRewrites_consistent {update : UpdateStatement table}
    (readsBack : (Statement.update update).ReadsBack store)
    (lengths : ∀ key ∈ store.data, key.length = table.numKeys) :
    KeepsRewrites update store.data (Consistent table) := by
  intro sibling member done state after key node updated consistent waits found qualifies passed
  obtain ⟨newKey, newNode, rewrites⟩ := tmplUpdateRecordInTable_rewrites passed
  obtain ⟨values, evaluated, image⟩ := images rewrites.image
  have isKey : key ∈ store.data := mem_of_lookup_eq_some found
  have present : state.store.data.lookup key = some node :=
    (updated.waiting key waits isKey).trans found
  have sameTuples := readsBack key node found ⟨sibling, member, qualifies⟩ newKey newNode _
    rewrites.image image
  constructor
  case globals =>
    have exactly := consistent.globals.write_iff rewrites.lookup rewrites.free
      (fun name uniqGblname columns inUniques => by
        rw [tupleAt, present]
        exact rewrites.reindexed values evaluated name uniqGblname columns inUniques)
    refine exactly.mpr fun name uniqGblname columns inUniques => ?_
    rw [← tuple_assign (isSome_of_assignedValues evaluated) (lengths key isKey) (by simp [readRow])
      (table.unique_columns name uniqGblname columns inUniques)]
    exact (sameTuples name uniqGblname columns inUniques).symm
  case length_eq =>
    intro other isThere
    rcases rewrites.mem_data isThere with rfl | earlier
    · have isImage : update.Image store.data key other newNode := ⟨node, found, rewrites.image⟩
      exact isImage.length_eq.trans (lengths key isKey)
    · exact consistent.length_eq other earlier
  case numbered =>
    intro hidden other isThere
    rw [rewrites.counter]
    apply consistent.numbered hidden
    rcases rewrites.mem_data isThere with rfl | earlier
    · rw [rewrites.stays (update.setsKey_eq_false hidden)]
      exact mem_of_lookup_eq_some present
    · exact earlier

/-! ## Runs of statements -/

theorem consistent_created : Consistent table Store.created := by
  constructor
  case globals =>
    intro name uniqGblname columns _
    exact indexes_empty
  case length_eq => exact fun _ member => (notMem_empty member).elim
  case numbered => exact fun _ _ member => (notMem_empty member).elim

section

variable (statement : Statement table) (consistent : Consistent table store)
  (readsBack : statement.ReadsBack store)
include consistent readsBack

/-- A statement whose rows are read back leaves the table consistent. -/
theorem Statement.execute_consistent (executed : statement.execute store = .ok after) :
    Consistent table after := by
  cases statement with
  | insert sources =>
    obtain ⟨final, passed, rfl⟩ := exists_of_map_eq_ok executed
    refine forList_induction (fun state => Consistent table state.store) ?_ consistent passed
    intro source member before after consistent step
    obtain ⟨values, inserts⟩ := insertRow_inserts step
    refine consistent.insert inserts ((consistent.insert_globals_iff inserts).mpr ?_)
    exact readsBack source member values inserts.evaluated _
  | update rewriting =>
    obtain ⟨final, passed, rfl⟩ := exists_of_map_eq_ok executed
    obtain ⟨_, _, kept, _⟩ := (tmplUpdateTable_updated consistent.length_eq
      (keepsRewrites_consistent readsBack consistent.length_eq) (Nat.lt_succ_self _) consistent).2
      final passed
    exact kept
  | delete removal =>
    obtain ⟨final, passed, rfl⟩ := exists_of_map_eq_ok executed
    exact ((tmplDeleteFrom_deleted consistent.length_eq keepsRemovals_consistent
      store.card_lt_passes consistent).2 final passed).1

theorem Statement.transact_consistent : Consistent table (statement.transact store) := by
  unfold transact
  split
  case h_1 => exact consistent
  case h_2 after passed => exact statement.execute_consistent consistent readsBack passed

end

/-- The states of a table that statements lead to, each of which reads back the rows that it has
written. -/
inductive Reachable (table : TableDefinition Text Node) : Store Text Node → Prop
  | created : Reachable table Store.created
  | transact {store : Store Text Node} (reachable : Reachable table store)
      (statement : Statement table) (readsBack : statement.ReadsBack store) :
      Reachable table (statement.transact store)

theorem Reachable.consistent (reachable : Reachable table store) : Consistent table store := by
  induction reachable with
  | created => exact consistent_created
  | transact _ statement readsBack ih => exact statement.transact_consistent ih readsBack

/-- No statement runs out of passes. -/
theorem Statement.execute_ne_outOfFuel (statement : Statement table)
    (consistent : Consistent table store) : statement.execute store ≠ .error .outOfFuel := by
  cases statement with
  | insert sources => exact map_ne_outOfFuel (tmplInsertInto_ne_outOfFuel table sources store) _
  | update rewriting =>
    have keeps : KeepsRewrites rewriting store.data fun _ => True := by
      intro _ _ _ _ _ _ _ _ _ _ _ _ _
      trivial
    exact map_ne_outOfFuel
      (tmplUpdateTable_updated consistent.length_eq keeps (Nat.lt_succ_self _) trivial).1 _
  | delete removal =>
    exact map_ne_outOfFuel (tmplDeleteFrom_deleted consistent.length_eq keepsRemovals_consistent
      store.card_lt_passes consistent).1 _

/-- The globals are right after an INSERT of one row if and only if the row is read back. -/
theorem Consistent.execute_insert_iff (consistent : Consistent table store)
    (executed : (Statement.insert [source] : Statement table).execute store = .ok after) :
    UniqueGlobals table after ↔ (Statement.insert [source] : Statement table).ReadsBack store := by
  obtain ⟨final, passed, rfl⟩ := exists_of_map_eq_ok executed
  obtain ⟨middle, step, rest⟩ := forList_cons_eq_ok passed
  obtain rfl := ok.inj rest
  obtain ⟨values, inserts⟩ := insertRow_inserts step
  rw [consistent.insert_globals_iff inserts]
  constructor
  · intro same other member values' evaluated number
    obtain rfl := mem_singleton.mp member
    obtain rfl := ok.inj (inserts.evaluated.symm.trans evaluated)
    exact sameTuples_number same number
  · intro readsBack
    exact readsBack source (mem_singleton_self _) values inserts.evaluated _

section Storable

variable {table : TableDefinition MString MString} {delim : Char}

/-- A row of storable values is read back from the node that an INSERT makes of it. -/
theorem TableDefinition.readRow_insertedNode (format : table.format = pieceFormat [delim])
    {row : Row MString} (length : row.cells.length = table.numCells)
    (storable : ∀ value ∈ row.cells, Storable delim value) :
    table.readRow row.key (table.insertedNode row) = row := by
  have cells : (table.readRow row.key (table.insertedNode row)).cells = row.cells := by
    apply ext_getElem?
    intro index
    simp only [readRow, insertedNode, getElem?_map, format]
    by_cases inRange : index < table.numCells
    · obtain ⟨value, isValue⟩ : ∃ value, row.cells[index]? = some value := by
        rw [← isSome_iff_exists]
        simpa [length] using inRange
      have nonempty : row.cells.map colvalue2piecevalue ≠ [] := by
        intro empty
        simp [map_eq_nil_iff.mp empty] at isValue
      have clean : ∀ piece ∈ row.cells.map colvalue2piecevalue, delim ∉ piece.letters := by
        intro piece member
        obtain ⟨stored, inRow, rfl⟩ := mem_map.mp member
        exact (storable stored inRow).notMem
      rw [getElem?_range inRange, map_some, isValue]
      have read : (pieceFormat [delim]).piece
          ((pieceFormat [delim]).ofPieces (row.cells.map colvalue2piecevalue)) index =
            colvalue2piecevalue value := by
        refine (Piece.piece_intercalate nonempty clean index).trans ?_
        have isPiece : (row.cells.map colvalue2piecevalue)[index]? =
            some (colvalue2piecevalue value) := by
          rw [getElem?_map, isValue, map_some]
        show (row.cells.map colvalue2piecevalue).getD index (⊥ : MString) = _
        rw [getD_eq_getElem?_getD, isPiece, getD_some]
      rw [read, (storable value (mem_of_getElem? isValue)).read_written]
    · rw [getElem?_eq_none (by simpa using inRange),
        getElem?_eq_none (by simpa [length] using inRange)]
      rfl
  exact congrArg (Row.mk row.key) cells

/-- The columns that a statement writes get values that can be pieces. -/
def Statement.WritesStorable (delim : Char) (statement : Statement table)
    (store : Store MString MString) : Prop :=
  match statement with
  | .insert sources => ∀ source ∈ sources, ∀ values, insertedValues table source = .ok values →
      ∀ entry ∈ values, entry.1.isKey = false → Storable delim entry.2
  | .update rewriting => ∀ key node, store.data.lookup key = some node →
      rewriting.Qualifies (table.readRow key node) → ∀ values,
        assignedValues table (table.readRow key node) rewriting.assignments = .ok values →
          ∀ entry ∈ values, entry.1.isKey = false → Storable delim entry.2
  | .delete _ => True

/-- For a delimiter of one letter: rows of storable values are read back. -/
theorem Statement.readsBack_of_writesStorable (format : table.format = pieceFormat [delim])
    {statement : Statement table} {store : Store MString MString}
    (storable : statement.WritesStorable delim store) : statement.ReadsBack store := by
  cases statement with
  | insert sources =>
    intro source member values evaluated number name uniqGblname columns _
    rw [readRow_insertedNode format (by simp [insertedRow])]
    intro value inRow
    obtain ⟨index, _, rfl⟩ := mem_map.mp inRow
    intro text isText
    have found : values.lookup (.cell index) = some (some text) := join_eq_some_iff.mp isText
    obtain ⟨earlier, later, split, _⟩ := lookup_eq_some_iff.mp found
    exact storable source member values evaluated (.cell index, some text) (by simp [split]) rfl
      text rfl
  | update rewriting =>
    intro key node found qualifies newKey newNode image stored isImage name uniqGblname columns _
    obtain ⟨values, evaluated, rfl, rfl⟩ := exists_values_of_storedImage stored
    simp only [setImage, evaluated] at isImage
    obtain rfl := ok.inj isImage
    rw [table.readRow_updatedNode format (rewriting.nodup_of_assignedValues evaluated)
      (storable key node found qualifies values evaluated)]
  | delete removal => trivial

end Storable

/-! ## Two statements -/

/-- `CREATE TABLE members (id VARCHAR PRIMARY KEY, name VARCHAR, mail VARCHAR UNIQUE)`. -/
def membersTable : TableDefinition MString MString where
  format := pieceFormat ['|']
  numKeys := 1
  numCells := 2
  columns := [.key 0, .cell 0, .cell 1]
  hasHiddenColumn := false
  rowNumber := fun _ => ⊥
  notNullCells := []
  checks := []
  uniques := [.primaryKey "members_pkey", .unique "members_mail_key" "mail" [.cell 1]]
  numKeys_pos := Nat.one_pos
  exists_primaryKey := fun _ => ⟨"members_pkey", List.mem_cons_self ..⟩
  columns_nodup := namesTable.columns_nodup
  mem_columns := namesTable.mem_columns
  hidden_numKeys := namesTable.hidden_numKeys
  hidden_rowNumber := namesTable.hidden_rowNumber
  unique_columns := by simp +contextual
  gblnames_nodup := List.nodup_singleton _

/-- The row `('1', name, mail)`. -/
def member (name mail : List Char) : SourceRow MString
  | .key _ => .ok (some (.ofLetters ['1']))
  | .cell 0 => .ok (some (.ofLetters name))
  | .cell _ => .ok (some (.ofLetters mail))

/-- `INSERT INTO members VALUES ('1', name, mail)`. -/
def insertMember (name mail : List Char) : Statement membersTable :=
  .insert [member name mail]

theorem insertMember_readsBack {name mail : List Char} {store : Store MString MString}
    (nameStorable : Storable '|' (some (.ofLetters name)))
    (mailStorable : Storable '|' (some (.ofLetters mail))) :
    (insertMember name mail).ReadsBack store := by
  apply Statement.readsBack_of_writesStorable rfl
  intro source isSource values evaluated entry isEntry isCell
  obtain rfl := mem_singleton.mp isSource
  cases evaluated
  simp only [mem_cons, not_mem_nil, or_false] at isEntry
  rcases isEntry with rfl | rfl | rfl
  · cases isCell
  · exact nameStorable
  · exact mailStorable

/-- `UPDATE members SET mail = NULL`, by a plan that scans the cross reference of the name. -/
def clearMails : UpdateStatement membersTable where
  assignments := [⟨.cell 1, fun _ => .ok none⟩]
  siblings := [⟨some (.ofRows membersTable (.cell 0)), [.unfixed, .unfixed], fun _ => .true⟩]
  columns_nodup := List.nodup_singleton _
  column_mem := by decide
  loops_length sibling member := by
    rw [mem_singleton.mp member]
    rfl

theorem clearMails_readsBack (store : Store MString MString) :
    (Statement.update clearMails).ReadsBack store := by
  apply Statement.readsBack_of_writesStorable rfl
  intro key node found qualifies values evaluated entry isEntry _
  cases evaluated
  rw [mem_singleton.mp isEntry]
  exact fun _ isText => nomatch isText

/-- `DELETE FROM members`. -/
def deleteMembers : DeleteStatement membersTable where
  siblings := [⟨none, [.unfixed], fun _ => .true⟩]
  loops_length sibling member := by
    rw [mem_singleton.mp member]
    rfl

end Octo.Dml
