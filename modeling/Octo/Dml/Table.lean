import Octo.Foundation.Kleene
import Octo.Foundation.Piece

/-!
# Tables that can be written

A READWRITE table is a global: the key columns are the subscripts of a node, and the other columns
are the pieces of its value, in their order in the table. NULL is stored as the empty string, and
the empty string is read back as NULL (`colvalue2piecevalue`, `piecevalue2colvalue`). A UNIQUE
constraint has a global of its own with one node for each tuple of values.

`Text` are the texts of columns and subscripts in the order in which subscripts are collated; the
empty text `⊥` is the least one. `Node` are the values of nodes.
-/
namespace Octo.Dml

open Kleene List Finmap

variable {Text Node : Type}
variable {delim : Char}

/-- A column: the key columns by their subscript, the other ones by their piece. -/
inductive Column where
  | key (index : Nat)
  | cell (index : Nat)
deriving DecidableEq, Repr

open Column

/-- `IS_KEY_COLUMN`. -/
def Column.isKey : Column → Bool
  | .key _ => true
  | .cell _ => false

/-- How the columns that are not keys are stored in the value of a node. -/
structure NodeFormat (Text Node : Type) where
  /-- `$PIECE(node,delim,index+1)`. -/
  piece : Node → Nat → Text
  /-- `SET $PIECE(node,delim,index+1)=value`. -/
  setPiece : Node → Nat → Text → Node
  /-- The concatenation of all pieces that an INSERT stores. -/
  ofPieces : List Text → Node

/-- The texts of M, in the order of their letters. Nothing depends on this order but that the empty
text is the least one. -/
def MString := List Char

/-- The text with the given letters. -/
def MString.ofLetters (letters : List Char) : MString := letters

/-- The letters of a text. -/
def MString.letters (text : MString) : List Char := text

instance : LinearOrder MString := inferInstanceAs (LinearOrder (List Char))

instance : OrderBot MString where
  bot := ([] : List Char)
  bot_le := fun text => not_lt.mp (List.not_lt_nil (show List Char from text))

/-- The layout of a table with the given delimiter. -/
def pieceFormat (delim : List Char) : NodeFormat MString MString where
  piece := Piece.piece delim
  setPiece := Piece.setPiece delim
  ofPieces := delim.intercalate

/-- The layout of a table with one column that is not a key and has `DELIM ""`: the column is the
value of the node. -/
def wholeNodeFormat : NodeFormat MString MString where
  piece := fun node _ => node
  setPiece := fun _ _ value => value
  ofPieces := List.flatten (α := Char)

/-- A row as the columns of it are read. -/
structure Row (Text : Type) where
  key : List Text
  cells : List (Option Text)
deriving DecidableEq

/-- The value of a column in a row. -/
def Row.value (row : Row Text) : Column → Option Text
  | .key index => row.key[index]?
  | .cell index => (row.cells[index]?).join

/-- A CHECK constraint with the columns that it reads. -/
structure CheckConstraint (Text : Type) where
  name : String
  columns : List Column
  condition : (Column → Option Text) → Truth

/-- The constraints that `lp_generate_constraint` puts into the list of UNIQUE constraints. -/
inductive UniqueConstraint where
  | primaryKey (name : String)
  | unique (name uniqGblname : String) (columns : List Column)
deriving DecidableEq

/-- The global of a UNIQUE constraint. -/
def UniqueConstraint.gblname? : UniqueConstraint → Option String
  | .primaryKey _ => none
  | .unique _ uniqGblname _ => some uniqGblname

/-- What the statements that write to a table read of its definition. -/
structure TableDefinition (Text Node : Type) where
  format : NodeFormat Text Node
  numKeys : Nat
  numCells : Nat
  /-- The columns that a statement can name, in their order. -/
  columns : List Column
  /-- The table has no key columns of its own; its rows are numbered. -/
  hasHiddenColumn : Bool
  /-- The text of a row number. -/
  rowNumber : Nat → Text
  notNullCells : List Nat
  checks : List (CheckConstraint Text)
  uniques : List UniqueConstraint
  numKeys_pos : 0 < numKeys
  /-- Key columns make a PRIMARY KEY constraint. -/
  exists_primaryKey : hasHiddenColumn = false → ∃ name, UniqueConstraint.primaryKey name ∈ uniques
  columns_nodup : columns.Nodup
  mem_columns : ∀ column, column ∈ columns ↔
    match column with
    | .key index => hasHiddenColumn = false ∧ index < numKeys
    | .cell index => index < numCells
  hidden_numKeys : hasHiddenColumn = true → numKeys = 1
  hidden_rowNumber : hasHiddenColumn = true → Function.Injective rowNumber
  /-- The columns of a UNIQUE constraint are columns of the table. -/
  unique_columns : ∀ name uniqGblname members,
    UniqueConstraint.unique name uniqGblname members ∈ uniques →
      ∀ column ∈ members, column ∈ columns
  /-- Each UNIQUE constraint has a global of its own. -/
  gblnames_nodup : (uniques.filterMap UniqueConstraint.gblname?).Nodup

variable (table : TableDefinition Text Node) {column : Column}

theorem TableDefinition.isKey_eq_false (hidden : table.hasHiddenColumn = true)
    (member : column ∈ table.columns) :
    column.isKey = false := by
  cases column with
  | key index =>
    have visible := ((table.mem_columns _).mp member).1
    rw [hidden] at visible
    cases visible
  | cell index => rfl

/-- `IS_COLUMN_NOT_NULL`. -/
def TableDefinition.isNotNull (table : TableDefinition Text Node) : Column → Bool
  | .key _ => true
  | .cell index => decide (index ∈ table.notNullCells)

/-- The errors that end a statement. -/
inductive DmlError (Text : Type) where
  | expression (message : String)
  | nullColValue (column : Column)
  | checkConstraintViolation (constraint : String) (row : Row Text)
  | duplicateKeyValue (constraint : String) (columns : List Column) (values : List (Option Text))
  | gvundef
  | outOfFuel
deriving DecidableEq

/-- The globals of a table. -/
structure Store (Text Node : Type) where
  /-- The rows. -/
  data : Finmap fun _ : List Text => Node
  /-- The value of the node without subscripts, which numbers the rows of a table without keys. -/
  counter : Nat
  /-- The tuples in the global of a UNIQUE constraint. -/
  indexes : String → Finset (List Text)

variable (data : Finmap fun _ : List Text => Node) {value : Option MString}

/-- The nodes after a node was moved: `KILL` of the old one and `SET` of the new one. -/
theorem lookup_insert_erase [DecidableEq Text] (old new other : List Text) (node : Node) :
    ((data.erase old).insert new node).lookup other =
      if other = new then some node else if other = old then none else data.lookup other := by
  by_cases atNew : other = new
  · subst atNew
    rw [lookup_insert, if_pos rfl]
  · rw [lookup_insert_of_ne _ atNew, if_neg atNew]
    by_cases atOld : other = old
    · subst atOld
      rw [lookup_erase, if_pos rfl]
    · rw [lookup_erase_ne atOld, if_neg atOld]

theorem insert_erase_self [DecidableEq Text] (key : List Text) (node : Node) :
    (data.erase key).insert key node = data.insert key node := by
  apply ext_lookup
  intro other
  by_cases same : other = key
  · subst same
    rw [lookup_insert, lookup_insert]
  · rw [lookup_insert_of_ne _ same, lookup_insert_of_ne _ same, lookup_erase_ne same]

section Values

variable [DecidableEq Text] [Bot Text]

/-- The empty text stands for NULL. -/
def piecevalue2colvalue (piecevalue : Text) : Option Text :=
  if piecevalue = ⊥ then none else some piecevalue

/-- NULL is stored as the empty text. -/
def colvalue2piecevalue (colvalue : Option Text) : Text :=
  colvalue.getD ⊥

/-- The columns of a node (`tmpl_column_reference`). -/
def TableDefinition.readRow (table : TableDefinition Text Node) (key : List Text) (node : Node) :
    Row Text where
  key := key
  cells := (List.range table.numCells).map fun index =>
    piecevalue2colvalue (table.format.piece node index)

@[simp]
theorem TableDefinition.key_readRow (key : List Text)
    (node : Node) : (table.readRow key node).key = key := rfl

end Values

/-! ## New values of columns -/

/-- The new values of columns, the lvn `col`. -/
abbrev ColumnValues (Text : Type) := List (Column × Option Text)

namespace ColumnValues

variable (values : ColumnValues Text)

/-- The subscripts of a row with the new values (`EmitSourceForm_UpdateKeyCol`). -/
def updatedKey (key : List Text) : List Text :=
  key.mapIdx fun index old => ((values.lookup (.key index)).join).getD old

/-- The value of a node with the new values of the columns that are not keys. -/
def updatedNode [Bot Text] (format : NodeFormat Text Node) (node : Node) : Node :=
  values.foldl
    (fun node entry =>
      match entry.1 with
      | .key _ => node
      | .cell index => format.setPiece node index (colvalue2piecevalue entry.2))
    node

/-- The value of a column after the update. -/
def updatedValue (row : Row Text) (column : Column) : Option Text :=
  (values.lookup column).getD (row.value column)

/-- At least one of the columns has a new value. -/
def meets (columns : List Column) : Bool :=
  columns.any fun column => (values.lookup column).isSome

/-- At least one key column has a new value. -/
def setsKey : Bool :=
  values.any fun entry => entry.1.isKey

end ColumnValues

/-- A row with the new values: what an assignment to columns means. -/
def Row.assign (row : Row Text) (values : ColumnValues Text) : Row Text where
  key := values.updatedKey row.key
  cells := row.cells.mapIdx fun index old => (values.lookup (.cell index)).getD old

@[simp]
theorem ColumnValues.length_updatedKey (values : ColumnValues Text) (key : List Text) :
    (values.updatedKey key).length = key.length := by
  simp [ColumnValues.updatedKey]

/-- A key keeps its place unless one of its columns has a new value. -/
theorem ColumnValues.updatedKey_of_not_setsKey {values : ColumnValues Text}
    (noKey : values.setsKey = false) (key : List Text) : values.updatedKey key = key := by
  have absent : ∀ index, values.lookup (.key index) = none := by
    intro index
    rw [lookup_eq_none_iff]
    intro entry member
    have cell : entry.1.isKey = false := by
      simpa using any_eq_false.mp noKey entry member
    rw [bne_iff_ne]
    intro same
    simp [← same, isKey] at cell
  apply ext_getElem?
  intro index
  simp [updatedKey, absent]

/-! ## Values that are read back -/

/-- A value that can be a piece: it is not the empty text and does not contain the delimiter. -/
def Storable (delim : Char) (value : Option MString) : Prop :=
  ∀ text, value = some text → text ≠ ⊥ ∧ delim ∉ text.letters

theorem Storable.notMem (storable : Storable delim value) :
    delim ∉ (colvalue2piecevalue value).letters := by
  cases value with
  | none => exact not_mem_nil
  | some text => exact (storable text rfl).2

theorem Storable.read_written (storable : Storable delim value) :
    piecevalue2colvalue (colvalue2piecevalue value) = value := by
  cases value with
  | none => exact if_pos rfl
  | some text => exact if_neg (storable text rfl).1

/-- What is read from a piece could be stored there. -/
theorem storable_piece (delim : Char) (node : MString) (index : Nat) :
    Storable delim (piecevalue2colvalue ((pieceFormat [delim]).piece node index)) := by
  intro text isText
  unfold piecevalue2colvalue at isText
  split at isText
  case isTrue => cases isText
  case isFalse nonempty =>
    obtain rfl := Option.some.inj isText
    exact ⟨nonempty, Piece.notMem_piece node index⟩

theorem ColumnValues.lookup_of_mem {values : ColumnValues Text}
    (nodup : (values.map Prod.fst).Nodup) {value : Option Text}
    (member : (column, value) ∈ values) : values.lookup column = some value := by
  induction values with
  | nil => cases member
  | cons entry rest ih =>
    obtain ⟨notInRest, restNodup⟩ := nodup_cons.mp nodup
    rw [lookup_cons]
    rcases mem_cons.mp member with rfl | later
    · rw [beq_self_eq_true]
    · have differs : (column == entry.1) = false := by
        rw [beq_eq_false_iff_ne]
        rintro rfl
        exact notInRest (mem_map.mpr ⟨_, later, rfl⟩)
      rw [differs]
      exact ih restNodup later

/-- The pieces of a node after an update. -/
theorem ColumnValues.piece_updatedNode (values : ColumnValues MString)
    (nodup : (values.map Prod.fst).Nodup)
    (storable : ∀ entry ∈ values, entry.1.isKey = false → Storable delim entry.2) (node : MString)
    (index : Nat) :
    (pieceFormat [delim]).piece (values.updatedNode (pieceFormat [delim]) node) index =
      match values.lookup (.cell index) with
      | none => (pieceFormat [delim]).piece node index
      | some value => colvalue2piecevalue value := by
  induction values generalizing node with
  | nil => rfl
  | cons entry rest ih =>
    obtain ⟨column, value⟩ := entry
    obtain ⟨notInRest, restNodup⟩ := nodup_cons.mp nodup
    have storableRest : ∀ entry ∈ rest, entry.1.isKey = false → Storable delim entry.2 :=
      forall_mem_of_forall_mem_cons storable
    cases column with
    | key position =>
      refine (ih restNodup storableRest node).trans ?_
      rfl
    | cell position =>
      have clean := (storable _ (mem_cons_self ..) rfl).notMem
      refine (ih restNodup storableRest _).trans ?_
      rw [lookup_cons]
      by_cases same : index = position
      · subst same
        have absent : rest.lookup (.cell index) = none := by
          rw [lookup_eq_none_iff]
          intro entry member
          rw [bne_iff_ne]
          rintro sameColumn
          exact notInRest (mem_map.mpr ⟨entry, member, sameColumn.symm⟩)
        rw [absent, beq_self_eq_true]
        exact (Piece.piece_setPiece clean index).trans (if_pos rfl)
      · have differs : (cell index == cell position) = false := by simp [same]
        rw [differs]
        cases rest.lookup (.cell index) with
        | none => exact (Piece.piece_setPiece clean index).trans (if_neg same)
        | some later => rfl

/-- Storable values are read back. -/
theorem TableDefinition.readRow_updatedNode (table : TableDefinition MString MString)
    (format : table.format = pieceFormat [delim]) {values : ColumnValues MString}
    (nodup : (values.map Prod.fst).Nodup)
    (storable : ∀ entry ∈ values, entry.1.isKey = false → Storable delim entry.2)
    (key : List MString) (node : MString) :
    table.readRow (values.updatedKey key) (values.updatedNode table.format node) =
      (table.readRow key node).assign values := by
  have cells : (table.readRow (values.updatedKey key)
      (values.updatedNode table.format node)).cells =
      ((table.readRow key node).assign values).cells := by
    apply ext_getElem?
    intro index
    simp only [TableDefinition.readRow, Row.assign, getElem?_map, getElem?_mapIdx]
    by_cases inRange : index < table.numCells
    · rw [getElem?_range inRange]
      simp only [Option.map_some, format, values.piece_updatedNode nodup storable]
      cases found : values.lookup (.cell index) with
      | none => rfl
      | some value =>
        obtain ⟨before, behind, split, _⟩ := lookup_eq_some_iff.mp found
        have member : (cell index, value) ∈ values := by simp [split]
        exact congrArg some (storable _ member rfl).read_written
    · rw [getElem?_eq_none (by simpa using inRange)]
      rfl
  exact congrArg (Row.mk (values.updatedKey key)) cells

end Octo.Dml
