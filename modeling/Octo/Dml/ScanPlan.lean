import Octo.Dml.KeyLoop
import Octo.Dml.Table

/-!
# Plans that scan the rows of one table

UPDATE and DELETE scan their table with one plan for each disjunct of the WHERE clause. A plan goes
through the table itself or through the cross reference of a column, with the loops of
`tmpl_tablejoin` over the column and the keys.
-/
namespace Octo.Dml

open Kleene

variable {Text Node : Type}
variable {table : TableDefinition Text Node} {key : List Text} {node : Node}

variable [LinearOrder Text] [OrderBot Text]

/-- The cross reference of a column. It belongs to a plugin; what is assumed of the triggers of the
plugin is that they keep it up to date. -/
structure CrossReference (table : TableDefinition Text Node) where
  column : Column
  nodes : (Finmap fun _ : List Text => Node) → Finset (List Text)
  upToDate : ∀ data full, full ∈ nodes data ↔ ∃ key node, data.lookup key = some node ∧
    full = colvalue2piecevalue ((table.readRow key node).value column) :: key

/-- A cross reference with a node for each row. -/
def CrossReference.ofRows (table : TableDefinition Text Node) (column : Column) :
    CrossReference table where
  column := column
  nodes data := data.keys.biUnion fun key => (data.lookup key).toFinset.image fun node =>
    colvalue2piecevalue ((table.readRow key node).value column) :: key
  upToDate data full := by
    simp only [Finset.mem_biUnion, Finset.mem_image, Option.mem_toFinset, Option.mem_def]
    constructor
    · rintro ⟨key, -, node, found, rfl⟩
      exact ⟨key, node, found, rfl⟩
    · rintro ⟨key, node, found, rfl⟩
      exact ⟨key, Finmap.mem_iff.mpr ⟨node, found⟩, node, found, rfl⟩

/-- One of the plans of a statement that writes to the rows of a table. -/
structure ScanPlan (table : TableDefinition Text Node) where
  /-- The cross reference that is scanned instead of the table. -/
  xref : Option (CrossReference table)
  /-- The loops over the cross referenced column, if any, and over the keys. -/
  loops : List (KeyLoop Text)
  /-- What is left of the WHERE clause after keys were fixed. -/
  remaining : Row Text → Truth

open ScanPlan Finset

variable (sibling : ScanPlan table)

/-- The subscripts under which the scan of a plan meets a row. -/
def ScanPlan.path (sibling : ScanPlan table) (row : Row Text) : List Text :=
  match sibling.xref with
  | none => row.key
  | some xref => colvalue2piecevalue (row.value xref.column) :: row.key

/-- The subscripts of all rows. -/
def ScanPlan.paths (sibling : ScanPlan table) (data : Finmap fun _ : List Text => Node) :
    Finset (List Text) :=
  match sibling.xref with
  | none => data.keys
  | some xref => xref.nodes data

/-- The key columns among the subscripts of the scan. -/
def ScanPlan.keyOf (sibling : ScanPlan table) (path : List Text) : List Text :=
  if sibling.xref.isSome then path.tail else path

/-- The plan comes to the row, and the row meets what is left of the condition. -/
def ScanPlan.Qualifies (sibling : ScanPlan table) (row : Row Text) : Prop :=
  List.Forall₂ KeyLoop.Admits sibling.loops (sibling.path row) ∧ sibling.remaining row = .true

/-- The original rows that a plan has to treat. -/
def ScanPlan.qualifying (table : TableDefinition Text Node)
    (original : Finmap fun _ : List Text => Node) (sibling : ScanPlan table) : Set (List Text) :=
  {key | ∃ node, original.lookup key = some node ∧ sibling.Qualifies (table.readRow key node)}

@[simp]
theorem ScanPlan.keyOf_path (row : Row Text) :
    sibling.keyOf (sibling.path row) = row.key := by
  unfold keyOf path
  cases sibling.xref <;> simp

theorem ScanPlan.length_path (row : Row Text) :
    (sibling.path row).length = row.key.length + if sibling.xref.isSome then 1 else 0 := by
  unfold path
  cases sibling.xref <;> simp

variable {sibling : ScanPlan table} {full : List Text}
  (length : sibling.loops.length = table.numKeys + if sibling.xref.isSome then 1 else 0)

include length in
/-- There is a loop for each key column. -/
theorem ScanPlan.loops_ne_nil : sibling.loops ≠ [] := by
  intro empty
  have positive := table.numKeys_pos
  simp [empty] at length
  omega

include length in
/-- The loops of a plan go through all subscripts of a row. -/
theorem ScanPlan.length_eq_of_admits
    (admits : List.Forall₂ KeyLoop.Admits sibling.loops full) {row : Row Text}
    (keyLength : row.key.length = table.numKeys) : full.length = (sibling.path row).length := by
  rw [sibling.length_path, keyLength, ← admits.length_eq, length]

theorem ScanPlan.mem_paths_iff {data : Finmap fun _ : List Text => Node} :
    full ∈ sibling.paths data ↔
      ∃ key node, data.lookup key = some node ∧ full = sibling.path (table.readRow key node) := by
  unfold paths path
  cases sibling.xref with
  | some xref => exact xref.upToDate data full
  | none =>
    constructor
    · intro member
      obtain ⟨node, found⟩ := Finmap.mem_iff.mp member
      exact ⟨full, node, found, rfl⟩
    · rintro ⟨key, node, found, rfl⟩
      exact Finmap.mem_iff.mpr ⟨node, found⟩

/-- There is one path for each row. -/
theorem ScanPlan.card_paths_le (data : Finmap fun _ : List Text => Node) :
    (sibling.paths data).card ≤ data.keys.card := by
  refine card_le_card_of_injOn sibling.keyOf ?_ ?_
  · intro full member
    obtain ⟨key, node, found, rfl⟩ := mem_paths_iff.mp member
    rw [keyOf_path]
    exact Finmap.mem_iff.mpr ⟨node, found⟩
  · intro full member other otherMember same
    obtain ⟨key, node, found, rfl⟩ := mem_paths_iff.mp member
    obtain ⟨otherKey, otherNode, otherFound, rfl⟩ := mem_paths_iff.mp otherMember
    rw [keyOf_path, keyOf_path] at same
    obtain rfl : key = otherKey := same
    obtain rfl := Option.some.inj (found.symm.trans otherFound)
    rfl

/-! ## The rows that a scan has to treat -/

/-- The subscripts of the original rows at the given keys. -/
def pathsOf (table : TableDefinition Text Node) (original : Finmap fun _ : List Text => Node)
    (sibling : ScanPlan table) (keys : Set (List Text)) : Set (List Text) :=
  {full | ∃ key ∈ keys, ∃ node, original.lookup key = some node ∧
    full = sibling.path (table.readRow key node)}

/-- The rows that a scan has to treat if those at `before` were treated by other plans. -/
def scanTargets (table : TableDefinition Text Node) (original : Finmap fun _ : List Text => Node)
    (sibling : ScanPlan table) (before : Finset (List Text)) : Set (List Text) :=
  pathsOf table original sibling {key | key ∉ before ∧ ∀ node, original.lookup key = some node →
    sibling.remaining (table.readRow key node) = .true}

variable {original : Finmap fun _ : List Text => Node} {before : Finset (List Text)}
  (found : original.lookup key = some node)

include found in
/-- The key of an original row is determined by its subscripts. -/
theorem mem_pathsOf_iff {keys : Set (List Text)} :
    sibling.path (table.readRow key node) ∈ pathsOf table original sibling keys ↔ key ∈ keys := by
  constructor
  · rintro ⟨other, member, otherNode, _, same⟩
    have sameKey := congrArg sibling.keyOf same
    simp only [keyOf_path, TableDefinition.key_readRow] at sameKey
    exact sameKey ▸ member
  · intro member
    exact ⟨key, member, node, found, rfl⟩

include found in
theorem mem_scanTargets (notBefore : key ∉ before)
    (meets : sibling.remaining (table.readRow key node) = .true) :
    sibling.path (table.readRow key node) ∈ scanTargets table original sibling before := by
  refine (mem_pathsOf_iff found).mpr ⟨notBefore, fun other found' => ?_⟩
  obtain rfl := Option.some.inj (found.symm.trans found')
  exact meets

/-- A target is an original row that meets the condition of the plan. -/
theorem exists_of_mem_scanTargets {row : Row Text}
    (target : sibling.path row ∈ scanTargets table original sibling before) :
    row.key ∉ before ∧ ∃ node, original.lookup row.key = some node ∧
      sibling.remaining (table.readRow row.key node) = .true := by
  obtain ⟨key, ⟨notBefore, meets⟩, node, found, same⟩ := target
  obtain rfl : row.key = key := by simpa using congrArg sibling.keyOf same
  exact ⟨notBefore, node, found, meets node found⟩

include found in
/-- One more row was treated. -/
theorem insert_pathsOf {done : Finset (List Text)} (notBefore : key ∉ before) :
    insert (sibling.path (table.readRow key node))
        (pathsOf table original sibling {other | other ∈ done ∧ other ∉ before}) =
      pathsOf table original sibling {other | other ∈ insert key done ∧ other ∉ before} := by
  ext full
  constructor
  · rintro (rfl | ⟨other, ⟨isDone, otherNotBefore⟩, rest⟩)
    · exact ⟨key, ⟨mem_insert_self .., notBefore⟩, node, found, rfl⟩
    · exact ⟨other, ⟨mem_insert_of_mem isDone, otherNotBefore⟩, rest⟩
  · rintro ⟨other, ⟨isDone, otherNotBefore⟩, otherNode, otherFound, rfl⟩
    rcases mem_insert.mp isDone with rfl | earlier
    · obtain rfl := Option.some.inj (found.symm.trans otherFound)
      exact Or.inl rfl
    · exact Or.inr ⟨other, ⟨earlier, otherNotBefore⟩, otherNode, otherFound, rfl⟩

end Octo.Dml
