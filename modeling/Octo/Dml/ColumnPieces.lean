import Octo.Dml.UniqueGlobals

/-!
# Columns as pieces of one node

An INSERT puts the texts of the columns that are not keys one after the other with the delimiter of
the table between them, an UPDATE assigns single pieces in place, and reading splits the node again.
No value is escaped, and NULL is stored as the empty text. The columns are therefore read back
exactly if no value is the empty text and no value, with the beginning of the delimiter that follows
it, contains the delimiter. An assignment that is not read back stays wrong, or makes another one
wrong, until the end of the statement. The table has any delimiter that is not empty. A table with
only one column that is not a key stores this column as the value of its nodes, without a delimiter.

The code for an INSERT has the double quotes of a literal delimiter doubled, the code that reads a
column or assigns one has them as they are.
-/
namespace Octo.Dml

open Sweep Piece List Option Function Finmap TableDefinition Nat

/-- The `DELIM` of a table, with the flag byte that tells a list of `$CHAR` codes from a literal. -/
inductive Delimiter where
  | isDollarChar (letters : List Char)
  | isLiteral (letters : List Char)
deriving DecidableEq

/-- The letters of a delimiter. -/
def Delimiter.letters : Delimiter → List Char
  | isDollarChar letters => letters
  | isLiteral letters => letters

/-- `m_escape_string2`. -/
def mEscapeString : List Char → List Char
  | [] => []
  | letter :: rest =>
    if letter = '"' then letter :: letter :: mEscapeString rest else letter :: mEscapeString rest

/-- The text that M reads between two double quotes. A double quote in it has to be doubled. -/
def mLiteral : List Char → Option (List Char)
  | [] => some []
  | '"' :: '"' :: rest => (mLiteral rest).map ('"' :: ·)
  | letter :: rest => if letter = '"' then none else (mLiteral rest).map (letter :: ·)

/-- What an INSERT puts between two texts (`tmpl_insert_into`). -/
def Delimiter.inserted : Delimiter → Option (List Char)
  | isDollarChar letters => some letters
  | isLiteral letters => mLiteral (mEscapeString letters)

/-- What `$PIECE` gets as its delimiter (`tmpl_column_reference`, `tmpl_update_record_in_table`). -/
def Delimiter.emitted : Delimiter → Option (List Char)
  | isDollarChar letters => some letters
  | isLiteral letters => mLiteral letters

/-- The layout of the nodes of a READWRITE table, if the M code is well formed. -/
def nodeFormat (delim : Delimiter) (numCells : Nat) : Option (NodeFormat MString MString) :=
  if numCells = 1 then some wholeNodeFormat
  else delim.emitted.bind fun emitted =>
    delim.inserted.map fun inserted => { pieceFormat emitted with ofPieces := inserted.intercalate }

/-- The layout that writes and reads with the same letters. -/
def splitFormat (delim : List Char) (numCells : Nat) : NodeFormat MString MString :=
  if numCells = 1 then wholeNodeFormat else pieceFormat delim

/-- A delimiter that is the same text for all statements. -/
def Delimiter.Plain : Delimiter → Prop
  | isDollarChar _ => True
  | isLiteral letters => '"' ∉ letters

/-- The row that an INSERT has evaluated is read back from the store. The loops that read a table do
not reach an empty subscript. -/
def InsertReadsBack (table : TableDefinition MString MString) (source : SourceRow MString)
    (before after : InsertState MString MString) : Prop :=
  ∃ values node, insertedValues table source = .ok values ∧
    let row := table.insertedRow (table.nextNumber before.store) values
    after.store.data.lookup row.key = some node ∧ ⊥ ∉ row.key ∧ table.readRow row.key node = row

/-- The assigned columns are read with their new values, and the other columns are read as
before. -/
def UpdateReadsBack (table : TableDefinition MString MString) (values : ColumnValues MString)
    (key : List MString) (node : MString) : Prop :=
  ⊥ ∉ values.updatedKey key ∧
    table.readRow (values.updatedKey key) (values.updatedNode table.format node) =
      (table.readRow key node).assign values

/-- The text that is stored for a value. -/
def storedText (value : Option MString) : List Char :=
  (colvalue2piecevalue value).letters

/-- The values of a row that can be read back. -/
def Readable (delim : List Char) (numCells : Nat) (cells : List (Option MString)) : Prop :=
  (∀ value ∈ cells, value ≠ some ⊥) ∧
    (numCells ≠ 1 → Separable delim numCells (cells.map storedText))

/-- A column that can be assigned in a node. -/
def Assignable (delim : List Char) (numCells : Nat) (node : MString) :
    Column × Option MString → Prop
  | (.key _, _) => True
  | (.cell index, value) => value ≠ some ⊥ ∧
      (numCells ≠ 1 → Avoids delim (pieceTail delim node.letters index) (storedText value))

/-- A node with a piece for each column. -/
def Full (delim : List Char) (numCells : Nat) (node : MString) : Prop :=
  numCells ≠ 1 → numCells ≤ (pieces delim 0 node.letters).length

/-! ## Delimiters -/

theorem mLiteral_mEscapeString (letters : List Char) :
    mLiteral (mEscapeString letters) = some letters := by
  induction letters with
  | nil => rfl
  | cons letter rest ih =>
    rw [mEscapeString]
    split_ifs with quote
    · rw [quote, mLiteral, ih]
      rfl
    · rw [mLiteral.eq_3 _ _ fun _ same _ => quote same, if_neg quote, ih]
      rfl

/-- Without a double quote nothing has to be doubled. -/
theorem mLiteral_of_notMem {letters : List Char} (plain : '"' ∉ letters) :
    mLiteral letters = some letters := by
  have same : mEscapeString letters = letters := by
    induction letters with
    | nil => rfl
    | cons letter rest ih =>
      rw [mem_cons, not_or] at plain
      rw [mEscapeString, if_neg (Ne.symm plain.1), ih plain.2]
  have escaped := mLiteral_mEscapeString letters
  rwa [same] at escaped

theorem nodeFormat_of_plain {delim : Delimiter} (plain : delim.Plain) (numCells : Nat) :
    nodeFormat delim numCells = some (splitFormat delim.letters numCells) := by
  have texts : delim.emitted = some delim.letters ∧ delim.inserted = some delim.letters := by
    cases delim with
    | isDollarChar letters => exact ⟨rfl, rfl⟩
    | isLiteral letters => exact ⟨mLiteral_of_notMem plain, mLiteral_mEscapeString letters⟩
  rw [nodeFormat, splitFormat, texts.1, texts.2]
  split <;> rfl

/-! ## Values and texts -/

theorem piecevalue2colvalue_inj {first second : MString} :
    piecevalue2colvalue first = piecevalue2colvalue second ↔ first = second := by
  unfold piecevalue2colvalue
  constructor
  · intro same
    by_cases firstEmpty : first = ⊥ <;> by_cases secondEmpty : second = ⊥ <;> simp_all
  · rintro rfl
    rfl

theorem piecevalue2colvalue_ne_bot (text : MString) : piecevalue2colvalue text ≠ some ⊥ := by
  unfold piecevalue2colvalue
  split
  case isTrue => simp
  case isFalse nonempty => simpa using nonempty

/-- A value is read back from a text of its own unless it is the empty text. -/
theorem read_written_iff {value : Option MString} :
    piecevalue2colvalue (colvalue2piecevalue value) = value ↔ value ≠ some ⊥ := by
  constructor
  · intro same
    rw [← same]
    exact piecevalue2colvalue_ne_bot _
  · intro notEmpty
    cases value with
    | none => exact if_pos rfl
    | some text => exact if_neg fun empty => notEmpty (congrArg some empty)

/-- What is read is the value if and only if the text is the one that was stored for it. -/
theorem read_eq_iff {text : MString} {value : Option MString} :
    piecevalue2colvalue text = value ↔ value ≠ some ⊥ ∧ text = colvalue2piecevalue value := by
  constructor
  · rintro rfl
    refine ⟨piecevalue2colvalue_ne_bot text, ?_⟩
    exact piecevalue2colvalue_inj.mp (read_written_iff.mpr (piecevalue2colvalue_ne_bot text)).symm
  · rintro ⟨notEmpty, rfl⟩
    exact read_written_iff.mpr notEmpty

section Table

variable {table : TableDefinition MString MString} {delim : List Char}

variable {key : List MString} {node : MString} {row : Row MString} {index : Nat}
    {value : Option MString} {values : ColumnValues MString} {store : Store MString MString}

/-- Two rows of a table are the same if their columns are. -/
theorem readRow_eq_iff (length : row.cells.length = table.numCells) :
    table.readRow key node = row ↔ key = row.key ∧ ∀ index < table.numCells,
      row.cells[index]? = some (piecevalue2colvalue (table.format.piece node index)) := by
  obtain ⟨otherKey, cells⟩ := row
  rw [readRow, Row.mk.injEq]
  refine and_congr_right fun _ => ?_
  constructor
  · rintro rfl index inside
    rw [getElem?_map, getElem?_range inside, map_some]
  · intro read
    apply ext_getElem?
    intro index
    by_cases inside : index < table.numCells
    · rw [read index inside, getElem?_map, getElem?_range inside, map_some]
    · rw [getElem?_eq_none (by simpa using inside),
        getElem?_eq_none (by rw [length]; exact not_lt.mp inside)]

/-! ## SET lists -/

theorem updatedNode_cons_cell (format : NodeFormat MString MString) (index : Nat)
    (value : Option MString) (rest : ColumnValues MString) (node : MString) :
    ColumnValues.updatedNode ((.cell index, value) :: rest) format node =
      rest.updatedNode format (format.setPiece node index (colvalue2piecevalue value)) := rfl

theorem lookup_cell_cons_cell (index : Nat) (value : Option MString) (rest : ColumnValues MString)
    (cell : Nat) :
    lookup (Column.cell cell) ((.cell index, value) :: rest) =
      if cell = index then some value else rest.lookup (.cell cell) := by
  by_cases same : cell = index
  · rw [same, lookup_cons_self, if_pos rfl]
  · have differs : (Column.cell cell == Column.cell index) = false := by simp [same]
    rw [lookup_cons, differs, if_neg same]

variable {rest : ColumnValues MString} {source : SourceRow MString}

/-- A column that was assigned once is not assigned again. -/
theorem lookup_eq_none_of_nodup {entry : Column × Option MString}
    (nodup : ((entry :: rest).map Prod.fst).Nodup) : rest.lookup entry.1 = none := by
  rw [map_cons, nodup_cons] at nodup
  rw [lookup_eq_none_iff]
  intro other member
  rw [bne_iff_ne]
  intro same
  exact nodup.1 (same ▸ mem_map_of_mem member)

/-- The columns that are read after some more assignments, if `expected` should be read before
them. -/
def expectedCells (values : ColumnValues MString) (expected : Nat → Option MString) (index : Nat) :
    Option MString :=
  (values.lookup (.cell index)).getD (expected index)

theorem expectedCells_cons_cell (fresh : rest.lookup (.cell index) = none)
    (expected : Nat → Option MString) :
    expectedCells ((.cell index, value) :: rest) expected =
      expectedCells rest (update expected index value) := by
  ext1 cell
  rw [expectedCells, expectedCells, lookup_cell_cons_cell]
  by_cases same : cell = index
  · rw [if_pos same, same, fresh, update_self]
    rfl
  · rw [if_neg same, update_of_ne same]

/-! ## States of a table -/

/-- The states of a table that statements lead to. -/
inductive Written (table : TableDefinition MString MString) : Store MString MString → Prop
  | created : Written table Store.created
  | transact {store : Store MString MString} (written : Written table store)
      (statement : Statement table) : Written table (statement.transact store)

/-- The nodes of a table have all their subscripts and a piece for each column. -/
def Filled (delim : List Char) (table : TableDefinition MString MString)
    (store : Store MString MString) : Prop :=
  ∀ key node, store.data.lookup key = some node →
    key.length = table.numKeys ∧ Full delim table.numCells node

theorem Filled.length_eq (filled : Filled delim table store) (member : key ∈ store.data) :
    key.length = table.numKeys := by
  obtain ⟨node, found⟩ := mem_iff.mp member
  exact (filled key node found).1

theorem keepsRemovals_filled : KeepsRemovals table (Filled delim table) := by
  intro before after key node filled _ removes other otherNode isThere
  rw [removes.data] at isThere
  have differs : other ≠ key := by
    rintro rfl
    rw [lookup_erase] at isThere
    cases isThere
  rw [lookup_erase_ne differs] at isThere
  exact filled other otherNode isThere

variable (nonempty : delim ≠ []) (format : table.format = splitFormat delim table.numCells)
include nonempty format

/-! ## INSERT -/

theorem readRow_insertedNode_iff (length : row.cells.length = table.numCells) :
    table.readRow row.key (table.insertedNode row) = row ↔
      Readable delim table.numCells row.cells := by
  rw [readRow_eq_iff length, and_iff_right rfl]
  -- Reading a column is comparing its text, unless it holds the empty text.
  have byText : (∀ index < table.numCells, row.cells[index]? =
        some (piecevalue2colvalue (table.format.piece (table.insertedNode row) index))) ↔
      (∀ value ∈ row.cells, value ≠ some ⊥) ∧ ∀ index < table.numCells,
        table.format.piece (table.insertedNode row) index =
          (row.cells.map colvalue2piecevalue).getD index ⊥ := by
    have getD_eq : ∀ index value, row.cells[index]? = some value →
        (row.cells.map colvalue2piecevalue).getD index ⊥ = colvalue2piecevalue value := by
      intro index value found
      rw [getD_eq_getElem?_getD, getElem?_map, found, map_some, getD_some]
    constructor
    · intro read
      constructor
      · intro value member
        obtain ⟨index, found⟩ := mem_iff_getElem?.mp member
        have inside : index < table.numCells := by
          rw [← length]
          exact (List.getElem?_eq_some_iff.mp found).1
        exact (read_eq_iff.mp (some.inj ((read index inside).symm.trans found))).1
      · intro index inside
        rw [getD_eq index _ (read index inside)]
        exact (read_eq_iff.mp rfl).2
    · rintro ⟨notEmpty, texts⟩ index inside
      obtain ⟨value, found⟩ : ∃ value, row.cells[index]? = some value :=
        ⟨_, getElem?_eq_getElem (length ▸ inside)⟩
      rw [found, texts index inside, getD_eq index value found,
        read_written_iff.mpr (notEmpty value (mem_of_getElem? found))]
  rw [byText]
  refine and_congr_right fun _ => ?_
  by_cases single : table.numCells = 1
  · obtain ⟨value, isSingle⟩ := length_eq_one_iff.mp (length.trans single)
    simp only [insertedNode, format, single, isSingle]
    simp only [ne_eq, not_true_eq_false, false_implies, iff_true]
    rintro index inside
    obtain rfl := lt_one_iff.mp inside
    exact append_nil _
  · simp only [insertedNode, format, splitFormat, ne_eq, single, not_false_eq_true, forall_const]
    by_cases none_there : row.cells = []
    · have noCells : table.numCells = 0 := by rw [← length, none_there, length_nil]
      simp [noCells, Separable]
    · exact piece_intercalate_iff nonempty table.numCells (row.cells.map storedText)
        (by simpa using none_there)

theorem full_insertedNode (length : row.cells.length = table.numCells) :
    Full delim table.numCells (table.insertedNode row) := by
  intro several
  have made := length_le_length_pieces_intercalate nonempty (row.cells.map storedText)
  rw [length_map, length] at made
  rw [insertedNode, format, splitFormat, if_neg several]
  exact made

/-! ## UPDATE -/

/-- What is read of a column that is not a key. -/
def TableDefinition.readCell (table : TableDefinition MString MString) (node : MString)
    (index : Nat) : Option MString :=
  piecevalue2colvalue (table.format.piece node index)

section

variable (full : Full delim table.numCells node)
include full

theorem full_setPiece (index : Nat) (text : MString) :
    Full delim table.numCells (table.format.setPiece node index text) := by
  intro several
  have longer := length_pieces_le_setPiece nonempty node.letters index text.letters
  rw [format, splitFormat, if_neg several]
  exact le_trans (full several) longer

/-- A column that was assigned is read with its new value if and only if it can be assigned. -/
theorem readCell_setPiece_self_iff (inside : index < table.numCells) (value : Option MString) :
    table.readCell (table.format.setPiece node index (colvalue2piecevalue value)) index = value ↔
      Assignable delim table.numCells node (.cell index, value) := by
  rw [readCell, read_eq_iff]
  refine and_congr_right fun _ => ?_
  by_cases single : table.numCells = 1
  · rw [format, splitFormat, if_pos single]
    exact iff_of_true rfl fun several => absurd single several
  · rw [format, splitFormat, if_neg single, imp_iff_right single]
    exact piece_setPiece_self_iff nonempty (lt_of_lt_of_le inside (full single))
      (storedText value)

section

variable (inside : index < table.numCells)
  (assignable : Assignable delim table.numCells node (.cell index, value))
include inside assignable

/-- The other columns stay as they are if a column is assigned that can be. -/
theorem readCell_setPiece_of_ne {other : Nat} (otherInside : other < table.numCells)
    (differs : other ≠ index) :
    table.readCell (table.format.setPiece node index (colvalue2piecevalue value)) other =
      table.readCell node other := by
  have several : table.numCells ≠ 1 := by omega
  have separable := (separable_replacedPieces_iff nonempty
    (lt_of_lt_of_le inside (full several)) table.numCells (storedText value)).mpr
      fun _ => assignable.2 several
  have kept := (piece_setPiece_iff nonempty table.numCells node.letters index
    (storedText value)).mpr separable other otherInside
  rw [if_neg differs] at kept
  rw [readCell, readCell, format, splitFormat, if_neg several]
  exact congrArg piecevalue2colvalue kept

/-- Whether a column can be assigned does not depend on the columns that were assigned before. -/
theorem assignable_setPiece_iff (entry : Column × Option MString) :
    Assignable delim table.numCells
        (table.format.setPiece node index (colvalue2piecevalue value)) entry ↔
      Assignable delim table.numCells node entry := by
  obtain ⟨_ | other, otherValue⟩ := entry
  · exact Iff.rfl
  · refine and_congr_right fun _ => forall_congr' fun several => ?_
    have sameLength := length_pieces_setPiece nonempty
      (lt_of_lt_of_le inside (full several)) (assignable.2 several)
    have sameTail : pieceTail delim
        (table.format.setPiece node index (colvalue2piecevalue value)).letters other =
          pieceTail delim node.letters other := by
      rw [format, splitFormat, if_neg several]
      exact congrArg (fun length => if other + 1 < length then delim.dropLast else []) sameLength
    rw [sameTail]

end

end

section

variable (nodup : (values.map Prod.fst).Nodup)
  (areColumns : ∀ entry ∈ values, entry.1 ∈ table.columns) (full : Full delim table.numCells node)
  {expected : Nat → Option MString}
include nodup areColumns full

/-- A column that is read with a wrong value and is not assigned any more leaves some column with a
wrong value at the end. -/
theorem exists_readCell_ne (inside : index < table.numCells)
    (done : values.lookup (.cell index) = none)
    (wrong : table.readCell node index ≠ expected index) :
    ∃ cell < table.numCells, table.readCell (values.updatedNode table.format node) cell ≠
      expectedCells values expected cell := by
  induction values generalizing node expected index with
  | nil => exact ⟨index, inside, wrong⟩
  | cons entry rest ih =>
    have fresh := lookup_eq_none_of_nodup nodup
    have restNodup := (nodup_cons.mp nodup).2
    have restColumns := forall_mem_of_forall_mem_cons areColumns
    obtain ⟨_ | assigned, value⟩ := entry
    case key position =>
      obtain ⟨cell, within, differs⟩ := ih restNodup restColumns full inside done wrong
      refine ⟨cell, within, ?_⟩
      rwa [expectedCells]
    case cell =>
      rw [lookup_cell_cons_cell] at done
      have isOther : index ≠ assigned := by
        rintro rfl
        rw [if_pos rfl] at done
        cases done
      rw [if_neg isOther] at done
      have isCell : assigned < table.numCells :=
        (table.mem_columns (.cell assigned)).mp (areColumns _ (mem_cons_self ..))
      have stillFull := full_setPiece nonempty format full assigned (colvalue2piecevalue value)
      rw [expectedCells_cons_cell fresh]
      -- Either the assignment leaves the wrong column alone or it is read wrongly itself.
      by_cases assignable : Assignable delim table.numCells node (.cell assigned, value)
      · refine ih restNodup restColumns stillFull inside done ?_
        rwa [readCell_setPiece_of_ne nonempty format full isCell assignable inside isOther,
          update_of_ne isOther]
      · refine ih restNodup restColumns stillFull isCell fresh ?_
        rwa [update_self, Ne, readCell_setPiece_self_iff nonempty format full isCell]

/-- The columns are read as they were assigned if and only if each of them can be assigned. -/
theorem readCell_updatedNode_iff
    (right : ∀ cell < table.numCells, values.lookup (.cell cell) = none →
      table.readCell node cell = expected cell) :
    (∀ cell < table.numCells, table.readCell (values.updatedNode table.format node) cell =
      expectedCells values expected cell) ↔
        ∀ entry ∈ values, Assignable delim table.numCells node entry := by
  induction values generalizing node expected with
  | nil => exact iff_of_true (fun cell within => right cell within rfl) (by simp)
  | cons entry rest ih =>
    have fresh := lookup_eq_none_of_nodup nodup
    have restNodup := (nodup_cons.mp nodup).2
    have restColumns := forall_mem_of_forall_mem_cons areColumns
    rw [forall_mem_cons]
    obtain ⟨_ | assigned, value⟩ := entry
    case key position =>
      have noPiece : Assignable delim table.numCells node (.key position, value) := trivial
      rw [and_iff_right noPiece, ← ih restNodup restColumns full right]
      exact Iff.rfl
    case cell =>
      have isCell : assigned < table.numCells :=
        (table.mem_columns (.cell assigned)).mp (areColumns _ (mem_cons_self ..))
      have stillFull := full_setPiece nonempty format full assigned (colvalue2piecevalue value)
      rw [expectedCells_cons_cell fresh, updatedNode_cons_cell]
      by_cases assignable : Assignable delim table.numCells node (.cell assigned, value)
      · have sameLater := assignable_setPiece_iff nonempty format full isCell assignable
        rw [and_iff_right assignable, ih restNodup restColumns stillFull]
        · simp only [sameLater]
        · intro cell within notLater
          by_cases same : cell = assigned
          · rw [same, update_self]
            exact (readCell_setPiece_self_iff nonempty format full isCell value).mpr assignable
          · rw [update_of_ne same,
              readCell_setPiece_of_ne nonempty format full isCell assignable within same]
            apply right cell within
            rw [lookup_cell_cons_cell, if_neg same, notLater]
      · refine iff_of_false (fun read => ?_) fun both => assignable both.1
        have wrong : table.readCell (table.format.setPiece node assigned
            (colvalue2piecevalue value)) assigned ≠
              update expected assigned value assigned := by
          rwa [update_self, Ne, readCell_setPiece_self_iff nonempty format full isCell]
        obtain ⟨cell, within, differs⟩ := exists_readCell_ne nonempty format restNodup restColumns
          stillFull isCell fresh wrong
        exact differs (read cell within)

end

theorem full_updatedNode (values : ColumnValues MString) (full : Full delim table.numCells node) :
    Full delim table.numCells (values.updatedNode table.format node) := by
  induction values generalizing node with
  | nil => exact full
  | cons entry rest ih =>
    obtain ⟨_ | assigned, value⟩ := entry
    · exact ih full
    · exact ih (full_setPiece nonempty format full assigned _)

theorem updateReadsBack_iff
    (nodup : (values.map Prod.fst).Nodup) (areColumns : ∀ entry ∈ values, entry.1 ∈ table.columns)
    (key : List MString) (full : Full delim table.numCells node) :
    UpdateReadsBack table values key node ↔ ⊥ ∉ values.updatedKey key ∧
      ∀ entry ∈ values, Assignable delim table.numCells node entry := by
  have sameKey : values.updatedKey key = ((table.readRow key node).assign values).key := rfl
  rw [← readCell_updatedNode_iff nonempty format nodup areColumns full fun _ _ _ => rfl,
    UpdateReadsBack, readRow_eq_iff (by simp [Row.assign, readRow]), and_iff_right sameKey]
  refine and_congr_right fun _ => forall₂_congr fun cell within => ?_
  simp only [Row.assign, readRow, getElem?_mapIdx, getElem?_map,
    getElem?_range within, map_some, some_inj]
  exact eq_comm

/-! ## Statements -/

theorem insertReadsBack_iff {before after : InsertState MString MString}
    (passed : insertRow table source before = .ok after) :
    InsertReadsBack table source before after ↔
      ∀ values, insertedValues table source = .ok values →
        ⊥ ∉ (table.insertedRow (table.nextNumber before.store) values).key ∧
        Readable delim table.numCells
          (table.insertedRow (table.nextNumber before.store) values).cells := by
  obtain ⟨values, inserts⟩ := insertRow_inserts passed
  have length : (table.insertedRow (table.nextNumber before.store) values).cells.length =
      table.numCells := by
    simp [insertedRow]
  have stored := inserts.data ▸ lookup_insert (a := (table.insertedRow
    (table.nextNumber before.store) values).key) before.store.data
  constructor
  · rintro ⟨values', node, evaluated', found, reached, read⟩ others evaluated
    obtain rfl := Except.ok.inj (inserts.evaluated.symm.trans evaluated')
    obtain rfl := Except.ok.inj (inserts.evaluated.symm.trans evaluated)
    obtain rfl := some.inj (stored.symm.trans found)
    exact ⟨reached, (readRow_insertedNode_iff nonempty format length).mp read⟩
  · intro readable
    obtain ⟨reached, cells⟩ := readable values inserts.evaluated
    exact ⟨values, _, inserts.evaluated, stored, reached,
      (readRow_insertedNode_iff nonempty format length).mpr cells⟩

theorem rewrites_updateReadsBack_iff {update : UpdateStatement table}
    {sibling : ScanPlan table} {before after : UpdateState MString MString}
    (full : Full delim table.numCells node)
    (passed : tmplUpdateRecordInTable update sibling key node before = .ok after) :
    ∃ values, assignedValues table (table.readRow key node) update.assignments = .ok values ∧
      after.store.data.lookup (values.updatedKey key) =
        some (values.updatedNode table.format node) ∧
      (UpdateReadsBack table values key node ↔ ⊥ ∉ values.updatedKey key ∧
        ∀ entry ∈ values, Assignable delim table.numCells node entry) := by
  obtain ⟨newKey, newNode, rewrites⟩ := tmplUpdateRecordInTable_rewrites passed
  obtain ⟨values, evaluated, rfl, rfl⟩ :=
    UpdateStatement.exists_values_of_storedImage rewrites.image
  refine ⟨values, evaluated, by rw [rewrites.lookup, if_pos rfl], ?_⟩
  refine updateReadsBack_iff nonempty format (update.nodup_of_assignedValues evaluated) ?_ key full
  intro entry member
  have named : entry.1 ∈ update.assignments.map (·.column) := by
    rw [← map_fst_assignedValues evaluated]
    exact mem_map_of_mem member
  obtain ⟨assignment, isAssignment, same⟩ := mem_map.mp named
  rw [← same]
  exact update.column_mem assignment isAssignment

/-! ## Runs of statements -/

theorem filled_insert {before after : Store MString MString} (filled : Filled delim table before)
    (inserts : Inserts table source before after values) : Filled delim table after := by
  intro key node found
  rw [inserts.data] at found
  by_cases same : key = (table.insertedRow (table.nextNumber before) values).key
  · subst same
    obtain rfl := some.inj ((lookup_insert _).symm.trans found)
    exact ⟨table.length_key_insertedRow _ values,
      full_insertedNode nonempty format (by simp [insertedRow])⟩
  · exact filled key node ((lookup_insert_of_ne _ same).symm.trans found)

theorem keepsRewrites_filled (update : UpdateStatement table)
    (filled : Filled delim table store) : KeepsRewrites update store.data (Filled delim table) := by
  intro sibling _ done state after key node _ filledState _ found _ passed other otherNode isThere
  obtain ⟨newKey, newNode, rewrites⟩ := tmplUpdateRecordInTable_rewrites passed
  rw [rewrites.lookup] at isThere
  split at isThere
  case isTrue same =>
    obtain rfl := some.inj isThere
    have isImage : update.Image store.data key newKey newNode := ⟨node, found, rewrites.image⟩
    obtain ⟨old, values, found', _, isKey, rfl⟩ := isImage.exists_values
    obtain rfl := some.inj (found.symm.trans found')
    refine ⟨?_, full_updatedNode nonempty format values (filled key node found).2⟩
    rw [same, isImage.length_eq]
    exact (filled key node found).1
  case isFalse =>
    split at isThere
    case isTrue => cases isThere
    case isFalse => exact filledState other otherNode isThere

theorem Written.filled (written : Written table store) :
    Filled delim table store := by
  induction written with
  | created => exact fun _ _ found => (notMem_empty (mem_of_lookup_eq_some found)).elim
  | @transact store _ statement filled =>
    unfold Statement.transact
    split
    case h_1 => exact filled
    case h_2 after executed =>
      have lengths := fun key (member : key ∈ store.data) => filled.length_eq member
      cases statement with
      | insert sources =>
        obtain ⟨final, passed, rfl⟩ := exists_of_map_eq_ok executed
        refine forList_induction (fun state => Filled delim table state.store) ?_ filled passed
        intro source _ before after filled step
        obtain ⟨values, inserts⟩ := insertRow_inserts step
        exact filled_insert nonempty format filled inserts
      | update rewriting =>
        obtain ⟨final, passed, rfl⟩ := exists_of_map_eq_ok executed
        obtain ⟨_, _, kept, _⟩ := (tmplUpdateTable_updated lengths
          (keepsRewrites_filled nonempty format rewriting filled) (lt_succ_self _) filled).2
          final passed
        exact kept
      | delete removal =>
        obtain ⟨final, passed, rfl⟩ := exists_of_map_eq_ok executed
        exact ((tmplDeleteFrom_deleted lengths keepsRemovals_filled store.card_lt_passes
          filled).2 final passed).1

end Table

end Octo.Dml
