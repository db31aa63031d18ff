import Octo.Dml.UpdateScan

/-!
# What an UPDATE makes of its table

All plans together rewrite exactly the rows that meet the WHERE clause, each of them once and from
its own original values. The table that is read afterwards is therefore the one that SQL asks for,
provided that the images can be stored: a value that contains the delimiter shifts the pieces behind
it, an empty text is read back as NULL, and a row whose key has an empty text is not reached by the
loops that read the table.
-/
namespace Octo.Dml

open Kleene Sweep Option Finmap List UpdateStatement

variable {Text Node : Type} {table : TableDefinition Text Node}
  [LinearOrder Text] [OrderBot Text]

/-! ## All plans -/

section Plans

variable {update : UpdateStatement table} {keep : Store Text Node → Prop} {fuel : Nat}

/-- All plans together rewrite the rows that meet the condition of one of them. -/
theorem tmplUpdateTable_updated {store : Store Text Node}
    (lengths : ∀ key ∈ store.data, key.length = table.numKeys)
    (keeps : KeepsRewrites update store.data keep) (enough : 2 * store.data.keys.card < fuel)
    (kept : keep store) :
    tmplUpdateTable update fuel store ≠ .error .outOfFuel ∧
    ∀ final, tmplUpdateTable update fuel store = .ok final →
      ∃ done, Updated update store.data done final ∧ keep final.store ∧
        ∀ key node, store.data.lookup key = some node →
          update.Qualifies (table.readRow key node) → key ∈ done := by
  -- Without the check for duplicates there is only one plan, which finds nothing done.
  have alone : update.emitDuplicationCheck = false →
      update.siblings.length ≤ 1 ∧ (update.siblings ≠ [] → (∅ : Finset (List Text)) = ∅) := by
    intro single
    exact ⟨by simpa [emitDuplicationCheck] using single, fun _ => rfl⟩
  obtain ⟨noFuelError, reaches⟩ := forList_accumulates
    (fun rest before state => (∀ sibling ∈ rest, sibling ∈ update.siblings) ∧
      (update.emitDuplicationCheck = false → rest.length ≤ 1 ∧ (rest ≠ [] → before = ∅)) ∧
      Updated update store.data before state ∧ keep state.store)
    (ScanPlan.qualifying table store.data)
    (fun sibling rest before state ⟨subset, alone, updated, kept⟩ => by
      obtain ⟨noFuelError, reaches⟩ := scan_updated (subset sibling (mem_cons_self ..)) lengths
        (fun single => (alone single).2 (by simp)) keeps enough updated kept
      refine ⟨noFuelError, fun after passed => ?_⟩
      obtain ⟨done, updated', kept', grows, covers⟩ := reaches after passed
      refine ⟨done, grows, ⟨forall_mem_of_forall_mem_cons subset, ?_, updated', kept'⟩, ?_⟩
      · intro single
        obtain rfl : rest = [] := by simpa using (alone single).1
        simp
      · rintro key ⟨node, found, qualifies⟩
        exact covers key node found qualifies)
    ⟨fun _ member => member, alone, updated_initial store, kept⟩
  refine ⟨noFuelError, fun final passed => ?_⟩
  obtain ⟨done, _, ⟨_, _, updated, kept'⟩, covers⟩ := reaches final passed
  refine ⟨done, updated, kept', ?_⟩
  rintro key node found ⟨sibling, member, qualifies⟩
  exact covers sibling member ⟨node, found, qualifies⟩

end Plans

/-! ## The rows of a table -/

/-- The rows that are read from a table. The loops that read it do not reach an empty subscript. -/
def TableDefinition.rows (table : TableDefinition Text Node)
    (data : Finmap fun _ : List Text => Node) : Set (Row Text) :=
  {row | ∃ key node, data.lookup key = some node ∧ ⊥ ∉ key ∧ row = table.readRow key node}

/-- The row that the SET list makes of a row. -/
def UpdateStatement.setImage (update : UpdateStatement table) (row : Row Text) :
    Except (DmlError Text) (Row Text) :=
  match assignedValues table row update.assignments with
  | .error error => .error error
  | .ok values => .ok (row.assign values)

/-- The rows that SQL asks for: each row that meets the condition is replaced by its image. -/
def UpdateStatement.replaced (update : UpdateStatement table) (condition : Row Text → Truth)
    (rows : Set (Row Text)) : Set (Row Text) :=
  {row | ∃ old ∈ rows, if condition old = .true then update.setImage old = .ok row else row = old}

/-- The image of every row that meets the condition is read back from where it is stored. -/
def UpdateStatement.ReadsBack (update : UpdateStatement table) (condition : Row Text → Truth)
    (data : Finmap fun _ : List Text => Node) : Prop :=
  ∀ key node, data.lookup key = some node →
    condition (table.readRow key node) = .true →
    ∀ newKey newNode, update.storedImage key node = .ok (newKey, newNode) →
      ⊥ ∉ newKey ∧
        update.setImage (table.readRow key node) =
          .ok (table.readRow newKey newNode)

variable {key newKey : List Text} {node newNode : Node}

/-- A row and its image are evaluated together. -/
theorem UpdateStatement.setImage_of_storedImage {update : UpdateStatement table}
    (stored : update.storedImage key node = .ok (newKey, newNode)) :
    ∃ image, update.setImage (table.readRow key node) = .ok image ∧ image.key = newKey := by
  obtain ⟨values, evaluated, rfl, -⟩ := exists_values_of_storedImage stored
  rw [setImage, evaluated]
  exact ⟨_, rfl, rfl⟩

/-- For a delimiter of one letter: images are read back if and only if the values that are assigned
can be pieces, and no key gets an empty text. -/
theorem UpdateStatement.readsBack_iff {table : TableDefinition MString MString}
    {update : UpdateStatement table} {delim : Char} (format : table.format = pieceFormat [delim])
    {condition : Row MString → Truth} {data : Finmap fun _ : List MString => MString} :
    update.ReadsBack condition data ↔
      ∀ key node, data.lookup key = some node →
        condition (table.readRow key node) = .true →
        ∀ values,
          assignedValues table (table.readRow key node) update.assignments =
            .ok values →
          ⊥ ∉ values.updatedKey key ∧
            ∀ entry ∈ values, entry.1.isKey = false → Storable delim entry.2 := by
  have images : ∀ key node values,
      assignedValues table (table.readRow key node) update.assignments = .ok values →
      update.storedImage key node =
          .ok (values.updatedKey key, values.updatedNode table.format node) ∧
        update.setImage (table.readRow key node) =
          .ok ((table.readRow key node).assign values) := by
    intro key node values evaluated
    simp [storedImage, setImage, evaluated]
  constructor
  · intro readsBack key node found meets values evaluated
    obtain ⟨stored, image⟩ := images key node values evaluated
    obtain ⟨nonempty, same⟩ := readsBack key node found meets _ _ stored
    refine ⟨nonempty, ?_⟩
    rintro ⟨column, value⟩ member isCell
    have sameRow := Except.ok.inj (image.symm.trans same)
    cases column with
    | key index => cases isCell
    | cell index =>
      have assigned := values.lookup_of_mem (update.nodup_of_assignedValues evaluated) member
      have column : Column.cell index ∈ values.map Prod.fst := mem_map.mpr ⟨_, member, rfl⟩
      rw [map_fst_assignedValues evaluated] at column
      obtain ⟨assignment, inList, isColumn⟩ := mem_map.mp column
      have inTable : index < table.numCells :=
        (table.mem_columns (.cell index)).mp (isColumn ▸ update.column_mem assignment inList)
      have sameCell := congrArg (·.cells[index]?) sameRow
      simp only [Row.assign, TableDefinition.readRow, getElem?_mapIdx, getElem?_map,
        getElem?_range inTable, map_some, assigned, getD_some, format] at sameCell
      rw [some.inj sameCell]
      exact storable_piece delim _ index
  · intro storable key node found meets newKey newNode stored
    obtain ⟨values, evaluated, rfl, rfl⟩ := exists_values_of_storedImage stored
    obtain ⟨nonempty, clean⟩ := storable key node found meets values evaluated
    refine ⟨nonempty, ?_⟩
    rw [(images key node values evaluated).2,
      table.readRow_updatedNode format (update.nodup_of_assignedValues evaluated) clean]

/-- The store has a table whose rows can all be reached. -/
structure Store.WellFormed (table : TableDefinition Text Node) (store : Store Text Node) :
    Prop where
  length_eq : ∀ key ∈ store.data, key.length = table.numKeys
  nonempty : ∀ key ∈ store.data, ⊥ ∉ key

section Rows

variable {update : UpdateStatement table} {condition : Row Text → Truth}
  {store : Store Text Node} {done : Finset (List Text)} {final : UpdateState Text Node}

theorem Store.WellFormed.mem_rows (wellFormed : store.WellFormed table)
    (found : store.data.lookup key = some node) :
    table.readRow key node ∈ table.rows store.data :=
  ⟨key, node, found, wellFormed.nonempty key (mem_of_lookup_eq_some found), rfl⟩

/-- An image that is among the rows that are read is read from its own place. -/
theorem Updated.readRow_of_mem_rows (updated : Updated update store.data done final)
    {image : Row Text} (isDone : key ∈ done) (found : store.data.lookup key = some node)
    (stored : update.storedImage key node = .ok (newKey, newNode)) (imageKey : image.key = newKey)
    (isRead : image ∈ table.rows final.store.data) :
    ⊥ ∉ newKey ∧ image = table.readRow newKey newNode := by
  obtain ⟨place, placeNode, isThere, nonempty, rfl⟩ := isRead
  obtain rfl : place = newKey := imageKey
  obtain ⟨other, otherNode, isImage, otherThere⟩ := updated.stored key isDone
  obtain ⟨rfl, rfl⟩ := isImage.unique ⟨node, found, stored⟩
  obtain rfl := some.inj (isThere.symm.trans otherThere)
  exact ⟨nonempty, rfl⟩

/-- The rows are read as SQL asks for if and only if every image is read back. -/
theorem Updated.rows_eq_iff (wellFormed : store.WellFormed table)
    (updated : Updated update store.data done final)
    (done_iff : ∀ key node, store.data.lookup key = some node →
      (key ∈ done ↔ condition (table.readRow key node) = .true)) :
    table.rows final.store.data =
        update.replaced condition (table.rows store.data) ↔
      update.ReadsBack condition store.data := by
  constructor
  · intro same key node found meets newKey newNode stored
    obtain ⟨image, evaluated, imageKey⟩ := setImage_of_storedImage stored
    have isRead : image ∈ table.rows final.store.data := by
      rw [same]
      exact ⟨_, wellFormed.mem_rows found, by rw [if_pos meets, evaluated]⟩
    obtain ⟨nonempty, rfl⟩ := updated.readRow_of_mem_rows ((done_iff key node found).mpr meets)
      found stored imageKey isRead
    exact ⟨nonempty, evaluated⟩
  · intro readsBack
    ext row
    constructor
    · rintro ⟨key, node, isThere, nonempty, rfl⟩
      rcases updated.origin key node isThere with
        ⟨waits, found⟩ | ⟨source, isDone, old, found, stored⟩
      · refine ⟨_, wellFormed.mem_rows found, ?_⟩
        rw [if_neg (mt (done_iff key node found).mpr waits)]
      · have meets := (done_iff source old found).mp isDone
        refine ⟨_, wellFormed.mem_rows found, ?_⟩
        rw [if_pos meets]
        exact (readsBack source old found meets key node stored).2
    · rintro ⟨_, ⟨key, node, found, nonempty, rfl⟩, becomes⟩
      split at becomes
      case isTrue meets =>
        have isDone := (done_iff key node found).mpr meets
        obtain ⟨newKey, newNode, ⟨old, found', stored⟩, isThere⟩ := updated.stored key isDone
        obtain rfl := some.inj (found.symm.trans found')
        obtain ⟨newNonempty, evaluated⟩ := readsBack key node found meets newKey newNode stored
        obtain rfl := Except.ok.inj (becomes.symm.trans evaluated)
        exact ⟨newKey, newNode, isThere, newNonempty, rfl⟩
      case isFalse fails =>
        subst becomes
        have waits := mt (done_iff key node found).mp fails
        have isThere := updated.waiting key waits (mem_of_lookup_eq_some found)
        exact ⟨key, node, isThere.trans found, nonempty, rfl⟩

end Rows

/-- `CREATE TABLE names (id VARCHAR PRIMARY KEY, firstname VARCHAR, lastname VARCHAR)`. -/
def namesTable : TableDefinition MString MString where
  format := pieceFormat ['|']
  numKeys := 1
  numCells := 2
  columns := [.key 0, .cell 0, .cell 1]
  hasHiddenColumn := false
  rowNumber := fun _ => ⊥
  notNullCells := []
  checks := []
  uniques := [.primaryKey "names_pkey"]
  numKeys_pos := Nat.one_pos
  exists_primaryKey := fun _ => ⟨"names_pkey", List.mem_singleton_self _⟩
  columns_nodup := by decide
  mem_columns := by rintro (_ | _ | index) <;> simp
  hidden_numKeys := by simp
  hidden_rowNumber := by simp
  unique_columns := by simp
  gblnames_nodup := List.nodup_nil

/-- `UPDATE names SET column = value`. -/
def updateNames (column : Column) (value : Row MString → Except String (Option MString))
    (inTable : column ∈ namesTable.columns) : UpdateStatement namesTable where
  assignments := [⟨column, value⟩]
  siblings := [⟨none, [.unfixed], fun _ => .true⟩]
  columns_nodup := List.nodup_singleton _
  column_mem := by simpa using inTable
  loops_length sibling member := by
    rw [List.mem_singleton.mp member]
    rfl

/-- A statement without a WHERE clause updates every row that is read. -/
theorem updateNames_qualifies (column : Column)
    (value : Row MString → Except String (Option MString))
    (inTable : column ∈ namesTable.columns) {store : Store MString MString}
    (wellFormed : store.WellFormed namesTable) :
    ∀ row ∈ namesTable.rows store.data, (updateNames column value inTable).Qualifies row := by
  rintro _ ⟨key, node, found, nonempty, rfl⟩
  have length := wellFormed.length_eq key (mem_of_lookup_eq_some found)
  obtain ⟨sub, rfl⟩ := length_eq_one_iff.mp length
  refine ⟨_, mem_singleton_self _, List.Forall₂.cons ?_ .nil, rfl⟩
  exact bot_lt_iff_ne_bot.mpr fun empty => nonempty (by simp [empty])

/-- The key of a row of the table. -/
def nameKey (digit : Char) : List MString := [.ofLetters [digit]]

/-- The nodes `^names(1)="A|B"` and `^names(2)="C|D"`. -/
def twoNames : Store MString MString where
  data := ((∅ : Finmap fun _ : List MString => MString).insert (nameKey '1')
    (.ofLetters ['A', '|', 'B'])).insert (nameKey '2') (.ofLetters ['C', '|', 'D'])
  counter := 0
  indexes := fun _ => ∅

theorem twoNames_keys {key : List MString} (member : key ∈ twoNames.data) :
    key = nameKey '1' ∨ key = nameKey '2' := by
  rcases mem_insert.mp member with second | first
  · exact Or.inr second
  · rcases mem_insert.mp first with first | absent
    · exact Or.inl first
    · exact (notMem_empty absent).elim

theorem twoNames_wellFormed : twoNames.WellFormed namesTable := by
  constructor
  · intro key member
    rcases twoNames_keys member with rfl | rfl <;> rfl
  · intro key member
    rcases twoNames_keys member with rfl | rfl <;> decide

/-- `id + 2`, for the rows above. -/
def movedId (key : List MString) : MString :=
  .ofLetters (if key = nameKey '1' then ['3'] else ['4'])

/-- `UPDATE names SET id = id + 2`: both rows move ahead of the scan. -/
def moveNames : UpdateStatement namesTable :=
  updateNames (.key 0) (fun row => .ok (some (movedId row.key))) (by decide)

/-- `UPDATE names SET firstname = 'x|y'`. -/
def setFirstname : UpdateStatement namesTable :=
  updateNames (.cell 0) (fun _ => .ok (some (.ofLetters ['x', '|', 'y']))) (by decide)

end Octo.Dml
