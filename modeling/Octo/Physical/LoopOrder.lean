import Octo.Physical.OrderByColumns
import Octo.Physical.TableJoinCorrect

/-!
# The order of the combinations of a join

The combinations of rows that grow from one table come in the order of the loops: nested loops visit
the rows of each table in lexicographic order, and the NULLs of a LEFT JOIN stand alone behind the
row they belong to. The second half of a RIGHT or FULL JOIN comes after all combinations with a row
of an earlier table. A row comes before the NULLs of its table in ascending order only.
-/
namespace Octo.Physical

open Octo.Foundation Relational List

variable {table : LoopTable} {keys : List LoopKey} {count : Nat} {tuple : Tuple KeyRow}
  {matched : List (Nat × KeyRow)} {row : KeyRow} {first second : Tuple KeyRow}

/-! ## The rows that the join code scans -/

open LoopTable Nat Bool Operand Or

/-- The tables that are NULL in a combination. -/
def nullTables (tuple : Tuple KeyRow) : List Nat :=
  (range tuple.length).filter fun index => tuple[index]? = some none

/-- The loops of a table are not emitted where its fixed key is the column of a NULL. -/
def leavesOutLoops (joins : List (JoinTable KeyRow)) (join : JoinTable KeyRow)
    (tuple : Tuple KeyRow) : Bool :=
  join.joinType.isLeftInFirstHalf && !keyLvnCanBeZysqlnull joins &&
    skipRightTablejoin (nullTables tuple) join

/-- What holds for every loop over all subscripts of a level that the emitted code starts: a table
is looped over for every combination of the tables before it, and once more for its second half. -/
def ForRun (zwrite : MValue → MValue) (holds : LoopTable → LoopKey → KeyRow → List MValue → Prop)
    (keys : List LoopKey) (tables : List LoopTable) (joins : List (JoinTable KeyRow)) : Prop :=
  ∀ index table join, tables[index]? = some table → joins[index]? = some join →
    (∀ tuple ∈ joinTuples (joins.take index), leavesOutLoops joins join tuple = false →
      table.ForScan zwrite keys (holds table) false tuple) ∧
    (join.joinType.hasSecondHalf = true → table.ForScan zwrite keys (holds table) true [])

/-- Every loop that the emitted code starts ends. -/
def LoopsQuit (zwrite : MValue → MValue) : List LoopKey → List LoopTable →
    List (JoinTable KeyRow) → Prop :=
  ForRun zwrite fun table key => key.Quits zwrite table

/-- Every loop that the emitted code starts has a `QUIT:` for the null string or for a value that is
stored there. -/
def LoopsHaveEnds (zwrite : MValue → MValue) : List LoopKey → List LoopTable →
    List (JoinTable KeyRow) → Prop :=
  ForRun zwrite fun table key => key.HasEnd zwrite table

theorem loopsQuit_eq_loopsHaveEnds (zwrite : MValue → MValue) :
    LoopsQuit zwrite = LoopsHaveEnds zwrite := by
  refine congrArg (ForRun zwrite) ?_
  funext table key outer stored
  exact propext (key.quits_iff_hasEnd zwrite table outer stored)

/-- The column has no keyword that ends a loop by anything else than the null string. -/
def LoopKey.isPlain (key : LoopKey) : Bool :=
  key.column.all fun column => column.start.isNone && !column.hasEnd

theorem LoopKey.endsAt_bot {key : LoopKey} (plain : key.isPlain = true) (table : LoopTable)
    (outer : KeyRow) : key.endsAt table outer ⊥ = true := by
  unfold endsAt
  unfold isPlain at plain
  cases isColumn : key.column with
  | none => simp
  | some column =>
    rw [isColumn] at plain
    obtain ⟨noStart, noEnd⟩ := and_eq_true_iff.mp plain
    rw [Option.isNone_iff_eq_none] at noStart
    rw [not_eq_true'] at noEnd
    cases endpoint : column.endpoint <;> simp [noStart, noEnd, endpoint]

variable (zwrite : MValue → MValue)

theorem LoopTable.forLoops_of_plain (table : LoopTable) {primary : List LoopKey}
    (plain : ∀ key ∈ primary, key.isPlain = true) (tuple : Tuple KeyRow) (outer : KeyRow)
    (rows : List KeyRow) :
    table.ForLoops zwrite (fun key => key.HasEnd zwrite table) tuple primary outer rows := by
  induction primary generalizing outer rows with
  | nil => trivial
  | cons key primary ih =>
    refine ⟨fun _ => inl (LoopKey.endsAt_bot (plain key mem_cons_self) table outer), ?_⟩
    exact fun sub _ => ih (forall_mem_of_forall_mem_cons plain) _ _

theorem LoopTable.forScan_of_plain (table : LoopTable)
    (plain : ∀ key ∈ keys, key.isPlain = true) (secondHalf : Bool) (tuple : Tuple KeyRow) :
    table.ForScan zwrite keys (fun key => key.HasEnd zwrite table) secondHalf tuple := by
  have primary (key : LoopKey) (member : key ∈ table.primaryKeys keys) : key.isPlain = true :=
    plain key (mem_filter.mp (mem_filter.mp member).1).1
  unfold ForScan
  split
  · refine table.forLoops_of_plain zwrite (fun key member => ?_) tuple [] _
    obtain ⟨own, inOwn, rfl⟩ := mem_map.mp member
    exact primary own inOwn
  · split
    · exact table.forLoops_of_plain zwrite primary tuple [] _
    · exact fun value _ => table.forLoops_of_plain zwrite primary tuple [] _

/-- The loops end if no column has such a keyword. -/
theorem loopsHaveEnds_of_plain (plain : ∀ key ∈ keys, key.isPlain = true)
    (tables : List LoopTable) (joins : List (JoinTable KeyRow)) :
    LoopsHaveEnds zwrite keys tables joins := fun _ table _ _ _ =>
  ⟨fun tuple _ _ => table.forScan_of_plain zwrite plain false tuple,
    fun _ => table.forScan_of_plain zwrite plain true []⟩

/-- The loops of a table are those of a table of the join code. When a cross reference has several
values, nothing depends on the order of the rows, and none is asked for. -/
structure Emits (zwrite : MValue → MValue) (keys : List LoopKey) (table : LoopTable)
    (join : JoinTable KeyRow) : Prop where
  joinType : join.joinType = table.joinType
  on : join.on = table.on
  scan : ∀ secondHalf tuple, (secondHalf = true → table.joinType.hasSecondHalf = true) →
    if table.hasSeveralXrefValues keys = true then
      (join.scan secondHalf tuple).Perm (table.scan zwrite keys secondHalf tuple)
    else join.scan secondHalf tuple = table.scan zwrite keys secondHalf tuple

/-- What the order of the keys says about a table. -/
structure Looped (keys : List LoopKey) (table : LoopTable) : Prop where
  arity : (table.primaryKeys keys).length = table.keyColumns.length
  fixedXref : ∀ xref, table.xrefKey keys = some xref → xref.fix.isSome = true

theorem JoinKeys.looped {tables : List LoopTable} (join : JoinKeys tables keys)
    (member : table ∈ tables) : Looped keys table := by
  obtain ⟨before, after, rfl⟩ := append_of_mem member
  obtain ⟨_, _, _, _, ownKeys⟩ := join.split
  refine ⟨ownKeys.filter.length_eq, fun xref isXref => ?_⟩
  have inKeys : xref ∈ keys := (mem_filter.mp (mem_of_find?_eq_some isXref)).1
  have fixed := join.isFixedXref_of_mem inKeys (by simpa using find?_some isXref)
  exact (and_eq_true_iff.mp fixed).1

theorem Looped.length_directions (looped : Looped keys table) :
    (table.directions keys).length = table.keyColumns.length := by
  rw [directions, length_map, looped.arity]

namespace Emits

variable {zwrite : MValue → MValue} {join : JoinTable KeyRow}
  (emits : Emits zwrite keys table join) (looped : Looped keys table)
include emits looped

section

variable {secondHalf : Bool} (allowed : secondHalf = true → table.joinType.hasSecondHalf = true)
include allowed

theorem mem_rows (member : row ∈ join.scan secondHalf tuple) : row ∈ table.rows := by
  have inScan : row ∈ table.scan zwrite keys secondHalf tuple := by
    have scan := emits.scan secondHalf tuple allowed
    split at scan
    · exact scan.mem_iff.mp member
    · rwa [scan] at member
  exact mem_rows_of_mem_scan looped.arity inScan

theorem scan_pairwise (single : table.hasSeveralXrefValues keys = false) (tuple : Tuple KeyRow) :
    (join.scan secondHalf tuple).Pairwise (lexStrict (table.directions keys)) := by
  have scan := emits.scan secondHalf tuple allowed
  rw [if_neg (by simp [single])] at scan
  rw [scan]
  exact LoopTable.scan_pairwise looped.fixedXref single secondHalf tuple

end

theorem mem_rows_of_secondHalf (hasSecondHalf : join.joinType.hasSecondHalf = true)
    (member : row ∈ join.rows) : row ∈ table.rows := by
  rw [emits.joinType] at hasSecondHalf
  rw [← join.scan_secondHalf []] at member
  exact emits.mem_rows looped (fun _ => hasSecondHalf) member

theorem rows_pairwise (hasSecondHalf : join.joinType.hasSecondHalf = true)
    (single : table.hasSeveralXrefValues keys = false) :
    join.rows.Pairwise (lexStrict (table.directions keys)) := by
  rw [emits.joinType] at hasSecondHalf
  rw [← join.scan_secondHalf []]
  exact emits.scan_pairwise looped (fun _ => hasSecondHalf) single []

theorem mem_rows_of_matchedKeys (member : row ∈ join.matchedKeys tuple) : row ∈ table.rows :=
  emits.mem_rows looped (absurd · false_ne_true) (mem_filter.mp member).1

end Emits

/-- The table of the join code whose rows are those of the second half, and that finds those of the
first half. -/
def LoopTable.joinTable (zwrite : MValue → MValue) (keys : List LoopKey) (table : LoopTable) :
    JoinTable KeyRow where
  joinType := table.joinType
  rows := table.scan zwrite keys true []
  on := table.on
  fixed := some ⟨none, fun tuple row => row ∈ table.scan zwrite keys false tuple, nofun⟩

/-- The loops of the second half do not depend on the rows of other tables. -/
theorem LoopTable.scan_secondHalf (keys : List LoopKey) (table : LoopTable) (tuple : Tuple KeyRow) :
    table.scan zwrite keys true tuple = table.scan zwrite keys true [] := by
  refine nestedScan_congr fun key member => ?_
  obtain ⟨own, -, rfl⟩ := mem_map.mp member
  rfl

/-- The loops of a table are those of its table of the join code when the first half finds rows of
the second half only. -/
theorem emits_joinTable {zwrite : MValue → MValue} (looped : Looped keys table)
    (single : table.hasSeveralXrefValues keys = false)
    (within : ∀ tuple, ∀ row ∈ table.scan zwrite keys false tuple,
      row ∈ table.scan zwrite keys true []) :
    Emits zwrite keys table (table.joinTable zwrite keys) := by
  refine ⟨rfl, rfl, fun secondHalf tuple _ => ?_⟩
  rw [if_neg (by simp [single])]
  cases secondHalf with
  | true => exact (table.scan_secondHalf zwrite keys tuple).symm
  | false =>
    have sorted : (table.scan zwrite keys true []).Pairwise (lexStrict (table.directions keys)) :=
      scan_pairwise looped.fixedXref single true []
    have partSorted : (table.scan zwrite keys false tuple).Pairwise
        (lexStrict (table.directions keys)) :=
      scan_pairwise looped.fixedXref single false tuple
    have part := eq_filter_mem_of_pairwise (fun _ _ => lexStrict_asymm) sorted partSorted
      (within tuple)
    refine Eq.trans (filter_congr fun row _ => ?_) part.symm
    exact decide_eq_decide.mpr Iff.rfl

/-- Without fixed keys both halves visit the same rows. -/
theorem LoopTable.scan_unfixed {zwrite : MValue → MValue}
    (unfixed : ∀ key ∈ table.ownKeys keys, key.fix.isNone = true ∧ key.isCrossReferenceKey = false)
    (tuple : Tuple KeyRow) :
    table.scan zwrite keys false tuple = table.scan zwrite keys true [] := by
  have noXref : table.xrefKey keys = none :=
    find?_eq_none.mpr fun key member => by simp [(unfixed key member).2]
  have same : ((table.primaryKeys keys).map fun key => { key with fix := none }) =
      table.primaryKeys keys := by
    refine (map_congr_left fun key member => ?_).trans (map_id _)
    have isNone := (unfixed key (mem_filter.mp member).1).1
    obtain ⟨uniqueId, column, isXref, fix, descending⟩ := key
    cases fix with
    | none => rfl
    | some fix => cases isNone
  rw [← table.scan_secondHalf zwrite keys tuple]
  simp only [scan, noXref, same, if_true, false_eq_true, if_false]

/-! ## Rows that grow from one combination -/

variable {zwrite : MValue → MValue} {tables : List LoopTable} {joins : List (JoinTable KeyRow)}
  {entry : Option KeyRow} {rows : Tuple KeyRow}
  (emits : List.Forall₂ (Emits zwrite keys) tables joins)
  (looped : ∀ table ∈ tables, Looped keys table) {grown : Tuple KeyRow}

include emits looped in
/-- The combinations that grow from one combination extend it by rows of the tables. -/
theorem placed_of_mem_growTuples (member : grown ∈ growTuples tuple joins) :
    ∃ rows, grown = tuple ++ rows ∧ Placed tables rows := by
  induction emits generalizing tuple with
  | nil => exact ⟨[], by simpa [growTuples] using member, .nil⟩
  | @cons table join tables joins emit rest ih =>
    have restLooped := forall_mem_of_forall_mem_cons looped
    rw [growTuples] at member
    split at member
    · obtain ⟨rows, rfl, placed⟩ := ih restLooped member
      refine ⟨none :: rows, ?_, .cons (placed_none _) placed⟩
      rw [append_assoc, singleton_append]
    · obtain ⟨row, inMatched, inGrown⟩ := mem_flatMap.mp member
      obtain ⟨rows, rfl, placed⟩ := ih restLooped inGrown
      refine ⟨some row :: rows, ?_, .cons ?_ placed⟩
      · rw [append_assoc, singleton_append]
      · rintro _ ⟨⟩
        exact emit.mem_rows_of_matchedKeys (looped table mem_cons_self) inMatched

/-- The number of primary key columns of tables. -/
def keyCount (tables : List LoopTable) : Nat := (tables.flatMap LoopTable.keyColumns).length

/-- The cross references that are looped over for the first key columns have one value each. -/
def Reaches (keys : List LoopKey) (tables : List LoopTable) (count : Nat) : Prop :=
  ∀ before table after, tables = before ++ table :: after → keyCount before < count →
    table.hasSeveralXrefValues keys = false

theorem Reaches.tail (reaches : Reaches keys (table :: tables) count) :
    Reaches keys tables (count - table.keyColumns.length) := by
  rintro before other after rfl few
  refine reaches (table :: before) other after rfl ?_
  rw [keyCount, flatMap_cons, length_append]
  change table.keyColumns.length + keyCount before < count
  omega

/-- Combinations with the same entry for the first table are ordered by their other entries. -/
theorem lexBefore_keyValues_cons (looped : Looped keys table)
    (placed : ∀ row, entry = some row → row ∈ table.rows) (count : Nat)
    (first second : Tuple KeyRow) :
    lexBefore ((loopDirections keys (table :: tables)).take count)
        (keyValues (table :: tables) (entry :: first))
        (keyValues (table :: tables) (entry :: second)) ↔
      lexBefore ((loopDirections keys tables).take (count - table.keyColumns.length))
        (keyValues tables first) (keyValues tables second) := by
  rw [loopDirections, flatMap_cons, keyValues, keyValues, lexBefore_append_same,
    looped.length_directions]
  · rfl
  · rw [length_entryValues placed, looped.length_directions]

/-- Combinations that extend a combination are in the order of the first loops. -/
def ExtendsInOrder (keys : List LoopKey) (tables : List LoopTable) (count : Nat)
    (tuple first second : Tuple KeyRow) : Prop :=
  ∀ rows others, first = tuple ++ rows → second = tuple ++ others →
    lexBefore ((loopDirections keys tables).take count) (keyValues tables rows)
      (keyValues tables others)

section Table

variable (here : Looped keys table)
include emits looped

theorem cons_of_mem_growTuples
    (member : grown ∈ growTuples (tuple ++ [entry]) joins) (grownEq : grown = tuple ++ rows) :
    ∃ more, rows = entry :: more ∧ grown = tuple ++ [entry] ++ more := by
  obtain ⟨more, rfl, -⟩ := placed_of_mem_growTuples emits looped member
  refine ⟨more, ?_, rfl⟩
  rw [append_assoc] at grownEq
  exact (append_cancel_left grownEq).symm

theorem extendsInOrder_of_lexStrict {other : KeyRow}
    (inFirst : first ∈ growTuples (tuple ++ [some row]) joins)
    (inSecond : second ∈ growTuples (tuple ++ [some other]) joins)
    (order : lexStrict (table.directions keys) row other) :
    ExtendsInOrder keys (table :: tables) count tuple first second := by
  intro rows others firstEq secondEq
  obtain ⟨moreRows, rfl, -⟩ := cons_of_mem_growTuples emits looped inFirst firstEq
  obtain ⟨moreOthers, rfl, -⟩ := cons_of_mem_growTuples emits looped inSecond secondEq
  exact lexBefore_of_lexStrict order _ _ _ count

include here

theorem extendsInOrder_same (placed : ∀ row, entry = some row → row ∈ table.rows)
    (sorted : (growTuples (tuple ++ [entry]) joins).Pairwise
      (ExtendsInOrder keys tables (count - table.keyColumns.length) (tuple ++ [entry]))) :
    (growTuples (tuple ++ [entry]) joins).Pairwise
      (ExtendsInOrder keys (table :: tables) count tuple) := by
  refine sorted.imp_of_mem ?_
  intro first second inFirst inSecond order rows others firstEq secondEq
  obtain ⟨moreRows, rfl, firstIs⟩ := cons_of_mem_growTuples emits looped inFirst firstEq
  obtain ⟨moreOthers, rfl, secondIs⟩ := cons_of_mem_growTuples emits looped inSecond secondEq
  exact (lexBefore_keyValues_cons here placed count _ _).mpr (order _ _ firstIs secondIs)

/-- What grows from rows of a table comes in the order of the loops when the rows do. -/
theorem flatMap_growTuples_pairwise {rows : List KeyRow} (inTable : ∀ row ∈ rows, row ∈ table.rows)
    (rowsSorted : 0 < count → rows.Pairwise (lexStrict (table.directions keys)))
    (sorted : ∀ row ∈ rows, (growTuples (tuple ++ [some row]) joins).Pairwise
      (ExtendsInOrder keys tables (count - table.keyColumns.length) (tuple ++ [some row]))) :
    (rows.flatMap fun row => growTuples (tuple ++ [some row]) joins).Pairwise
      (ExtendsInOrder keys (table :: tables) count tuple) := by
  refine pairwise_flatMap.mpr ⟨fun row member => ?_, ?_⟩
  · refine extendsInOrder_same emits looped here ?_ (sorted row member)
    rintro _ ⟨⟩
    exact inTable row member
  · rcases Nat.eq_zero_or_pos count with rfl | some
    · exact pairwise_of_forall fun _ _ _ _ _ _ _ _ _ _ => trivial
    · refine List.Pairwise.imp ?_ (rowsSorted some)
      intro row other order first inFirst second inSecond
      exact extendsInOrder_of_lexStrict emits looped inFirst inSecond order

end Table

include emits looped in
/-- What grows from one combination comes in the order of the loops. -/
theorem growTuples_pairwise (reaches : Reaches keys tables count) (tuple : Tuple KeyRow) :
    (growTuples tuple joins).Pairwise (ExtendsInOrder keys tables count tuple) := by
  induction emits generalizing count tuple with
  | nil => exact pairwise_singleton _ _
  | @cons table join tables joins emit rest ih =>
    have here := looped table mem_cons_self
    have restLooped := forall_mem_of_forall_mem_cons looped
    have later := fun entry => ih restLooped reaches.tail (tuple ++ [entry])
    rw [growTuples]
    split
    · exact extendsInOrder_same rest restLooped here (placed_none _) (later none)
    · refine flatMap_growTuples_pairwise rest restLooped here
        (fun row member => emit.mem_rows_of_matchedKeys here member) (fun some => ?_)
        fun row _ => later row
      have single := reaches [] table tables rfl some
      exact (emit.scan_pairwise here (absurd · false_ne_true) single tuple).filter _

/-! ## Rows that start at a later table -/

/-- The first table that has a row in a combination. -/
def firstRow (tuple : Tuple KeyRow) : Nat := tuple.findIdx Option.isSome

theorem firstRow_none (tuple : Tuple KeyRow) : firstRow (none :: tuple) = firstRow tuple + 1 := by
  simp [firstRow, findIdx_cons]

theorem firstRow_some (row : KeyRow) (tuple : Tuple KeyRow) : firstRow (some row :: tuple) = 0 := by
  simp [firstRow, findIdx_cons]

/-- Combinations come table by table that they start with, and in the order of the loops from
there. -/
def Follows (keys : List LoopKey) (tables : List LoopTable) (count : Nat)
    (first second : Tuple KeyRow) : Prop :=
  firstRow first < firstRow second ∨ firstRow first = firstRow second ∧
    lexBefore ((loopDirections keys tables).take count) (keyValues tables first)
      (keyValues tables second)

theorem Follows.none (looped : Looped keys table)
    (follows : Follows keys tables (count - table.keyColumns.length) first second) :
    Follows keys (table :: tables) count (none :: first) (none :: second) := by
  unfold Follows
  rw [firstRow_none, firstRow_none]
  refine follows.imp succ_lt_succ (And.imp (congrArg (· + 1)) ?_)
  exact (lexBefore_keyValues_cons looped (placed_none _) count _ _).mpr

include emits looped in
/-- The combinations of the second halves begin with NULLs for the tables before. -/
theorem placed_of_mem_secondHalfTuples {index : Nat}
    (member : tuple ∈ secondHalfTuples index matched joins) :
    ∃ rows, tuple = replicate index none ++ rows ∧ Placed tables rows ∧
      firstRow rows < tables.length := by
  induction emits generalizing index matched with
  | nil => cases member
  | @cons table join tables joins emit rest ih =>
    have restLooped := forall_mem_of_forall_mem_cons looped
    have later {matched : List (Nat × KeyRow)}
        (inRest : tuple ∈ secondHalfTuples (index + 1) matched joins) :
        ∃ rows, tuple = replicate index none ++ rows ∧ Placed (table :: tables) rows ∧
          firstRow rows < (table :: tables).length := by
      obtain ⟨rows, rfl, placed, starts⟩ := ih restLooped inRest
      refine ⟨none :: rows, ?_, .cons (placed_none _) placed, ?_⟩
      · rw [replicate_succ', append_assoc, singleton_append]
      · rw [firstRow_none]
        exact succ_lt_succ starts
    rw [secondHalfTuples_cons] at member
    split at member
    · rename_i hasSecondHalf
      obtain here | inRest := mem_append.mp member
      · obtain ⟨row, unmatched, inGrown⟩ := mem_flatMap.mp here
        obtain ⟨rows, rfl, placed⟩ := placed_of_mem_growTuples rest restLooped inGrown
        refine ⟨some row :: rows, ?_, .cons ?_ placed, ?_⟩
        · rw [rightOnly, append_assoc, singleton_append]
        · rintro _ ⟨⟩
          exact emit.mem_rows_of_secondHalf (looped table mem_cons_self) hasSecondHalf
            (mem_filter.mp unmatched).1
        · exact succ_pos _
      · exact later inRest
    · exact later member

/-- What the second half of a join outputs stands in the order of its tables. -/
def FollowsFrom (keys : List LoopKey) (tables : List LoopTable) (count index : Nat)
    (first second : Tuple KeyRow) : Prop :=
  ∀ rows others, first = List.replicate index none ++ rows →
    second = List.replicate index none ++ others → Follows keys tables count rows others

section Table

variable (here : Looped keys table) {index : Nat}
include emits looped

/-- The combinations that start with a row of the table. -/
theorem firstRow_of_rightOnly (member : tuple ∈ growTuples (rightOnly index row) joins)
    (tupleEq : tuple = replicate index none ++ rows) : firstRow rows = 0 := by
  obtain ⟨more, rfl, -⟩ := cons_of_mem_growTuples emits looped member tupleEq
  exact firstRow_some row more

/-- The combinations that start at a later table have a NULL for this one. -/
theorem none_of_mem_secondHalfTuples (member : tuple ∈ secondHalfTuples (index + 1) matched joins)
    (tupleEq : tuple = replicate index none ++ rows) :
    ∃ more, rows = none :: more ∧ tuple = replicate (index + 1) none ++ more := by
  obtain ⟨more, rfl, -⟩ := placed_of_mem_secondHalfTuples emits looped member
  refine ⟨more, ?_, rfl⟩
  rw [replicate_succ', append_assoc] at tupleEq
  exact (append_cancel_left tupleEq).symm

include here

theorem followsFrom_later (sorted : (secondHalfTuples (index + 1) matched joins).Pairwise
      (FollowsFrom keys tables (count - table.keyColumns.length) (index + 1))) :
    (secondHalfTuples (index + 1) matched joins).Pairwise
      (FollowsFrom keys (table :: tables) count index) := by
  refine sorted.imp_of_mem ?_
  intro first second inFirst inSecond follows rows others firstEq secondEq
  obtain ⟨moreRows, rfl, firstIs⟩ := none_of_mem_secondHalfTuples emits looped inFirst firstEq
  obtain ⟨moreOthers, rfl, secondIs⟩ := none_of_mem_secondHalfTuples emits looped inSecond secondEq
  exact (follows _ _ firstIs secondIs).none here

theorem followsFrom_rightOnly {unmatched : List KeyRow}
    (reaches : Reaches keys (table :: tables) count)
    (inTable : ∀ row ∈ unmatched, row ∈ table.rows)
    (sorted : 0 < count → unmatched.Pairwise (lexStrict (table.directions keys))) :
    (unmatched.flatMap fun key => growTuples (rightOnly index key) joins).Pairwise
      (FollowsFrom keys (table :: tables) count index) := by
  refine (flatMap_growTuples_pairwise emits looped here inTable sorted fun row _ =>
    growTuples_pairwise emits looped reaches.tail _).imp_of_mem ?_
  intro first second inFirst inSecond order rows others firstEq secondEq
  obtain ⟨row, -, inGrown⟩ := mem_flatMap.mp inFirst
  obtain ⟨other, -, otherGrown⟩ := mem_flatMap.mp inSecond
  refine inr ⟨?_, order rows others firstEq secondEq⟩
  rw [firstRow_of_rightOnly emits looped inGrown firstEq,
    firstRow_of_rightOnly emits looped otherGrown secondEq]

end Table

include emits looped in
/-- The second halves come table by table. -/
theorem secondHalfTuples_pairwise (reaches : Reaches keys tables count) (index : Nat)
    (matched : List (Nat × KeyRow)) :
    (secondHalfTuples index matched joins).Pairwise (FollowsFrom keys tables count index) := by
  induction emits generalizing count index matched with
  | nil => exact List.Pairwise.nil
  | @cons table join tables joins emit rest ih =>
    have here := looped table mem_cons_self
    have restLooped := forall_mem_of_forall_mem_cons looped
    have later := fun matched => followsFrom_later rest restLooped here
      (ih restLooped reaches.tail (index + 1) matched)
    rw [secondHalfTuples_cons]
    split
    · rename_i hasSecondHalf
      refine pairwise_append.mpr ⟨?_, later _, ?_⟩
      · refine followsFrom_rightOnly rest restLooped here reaches (fun row member => ?_) fun some =>
          ?_
        · exact emit.mem_rows_of_secondHalf here hasSecondHalf (mem_filter.mp member).1
        · exact (emit.rows_pairwise here hasSecondHalf (reaches [] table tables rfl some)).filter _
      · intro first inFirst second inSecond rows others firstEq secondEq
        obtain ⟨row, -, inGrown⟩ := mem_flatMap.mp inFirst
        obtain ⟨more, rfl, -⟩ := none_of_mem_secondHalfTuples rest restLooped inSecond secondEq
        refine inl ?_
        rw [firstRow_of_rightOnly rest restLooped inGrown firstEq, firstRow_none]
        exact succ_pos _
    · exact later matched

/-- All combinations of the join code come table by table that they start with, and in the order of
the loops from there. -/
theorem joinTuples_pairwise {first : JoinTable KeyRow} {rest : List (JoinTable KeyRow)}
    (emits : Forall₂ (Emits zwrite keys) tables (first :: rest))
    (starts : first.joinType = .noJoin) (looped : ∀ table ∈ tables, Looped keys table)
    (reaches : Reaches keys tables count) :
    (joinTuples (first :: rest)).Pairwise (Follows keys tables count) := by
  cases emits with
  | @cons table _ tables _ emit restEmits =>
    have restLooped := forall_mem_of_forall_mem_cons looped
    have startsHere {tuple : Tuple KeyRow} (member : tuple ∈ growTuples [] (first :: rest)) :
        firstRow tuple = 0 := by
      rw [growTuples, if_neg (by simp [starts, JoinType.isLeftInFirstHalf])] at member
      obtain ⟨row, -, inGrown⟩ := mem_flatMap.mp member
      obtain ⟨rows, rfl, -⟩ := placed_of_mem_growTuples restEmits restLooped inGrown
      exact firstRow_some row rows
    refine pairwise_append.mpr ⟨?_, ?_, ?_⟩
    · refine (growTuples_pairwise (.cons emit restEmits) looped reaches []).imp_of_mem ?_
      intro tuple other inTuples otherIn order
      refine inr ⟨?_, order tuple other rfl rfl⟩
      rw [startsHere inTuples, startsHere otherIn]
    · refine (secondHalfTuples_pairwise (.cons emit restEmits) looped reaches 0 _).imp ?_
      exact fun follows => follows _ _ rfl rfl
    · intro tuple inTuples other otherIn
      rw [secondHalfTuples_cons, if_neg (by simp [starts, JoinType.hasSecondHalf])] at otherIn
      obtain ⟨more, rfl, -⟩ := none_of_mem_secondHalfTuples restEmits restLooped otherIn rfl
      refine inl ?_
      rw [startsHere inTuples, firstRow_none]
      exact succ_pos _

include emits looped in
theorem placed_of_mem_joinTuples (member : tuple ∈ joinTuples joins) : Placed tables tuple := by
  obtain grown | second := mem_append.mp member
  · obtain ⟨rows, rfl, placed⟩ := placed_of_mem_growTuples emits looped grown
    exact placed
  · obtain ⟨rows, rfl, placed, -⟩ := placed_of_mem_secondHalfTuples emits looped second
    exact placed

/-- A row comes before the NULLs of its table when its first key column is ascending. -/
theorem lexBefore_none_iff (looped : Looped keys table) (inRows : row ∈ table.rows) (count : Nat)
    (first second : Tuple KeyRow) :
    lexBefore ((loopDirections keys (table :: tables)).take count)
        (keyValues (table :: tables) (some row :: first))
        (keyValues (table :: tables) (none :: second)) ↔
      ((loopDirections keys (table :: tables)).take count)[0]? ≠ some true := by
  obtain ⟨column, columns, isColumns⟩ := exists_cons_of_ne_nil table.hasKey
  have values := table.keyValues row inRows
  have length := looped.length_directions
  rw [isColumns] at values length
  obtain ⟨descending, directions, isDirections⟩ := exists_cons_of_length_eq_add_one length
  cases values with
  | @cons _ value _ row here _ =>
    cases count with
    | zero => simp [lexBefore]
    | succ count =>
      simp only [loopDirections, flatMap_cons, isDirections, keyValues, entryValues, isColumns,
        map_cons, cons_append, take_succ_cons, lexBefore]
      have notNull : value ≠ .null := here.notNull
      have less : value < .null := by
        cases value with
        | text bytes => exact MValue.text_lt_null bytes
        | null => exact absurd rfl notNull
      cases descending with
      | false => simpa [precedes] using inl less
      | true => simpa [precedes, notNull] using less.le

theorem getElem?_take_loopDirections (looped : Looped keys table) (count start : Nat) :
    ((loopDirections keys (table :: tables)).take count)[
        keyCount ((table :: tables).take (start + 1))]? =
      ((loopDirections keys tables).take (count - table.keyColumns.length))[
        keyCount (tables.take start)]? := by
  have split : keyCount ((table :: tables).take (start + 1)) =
      (table.directions keys).length + keyCount (tables.take start) := by
    rw [take_succ_cons, keyCount, flatMap_cons, length_append, looped.length_directions]
    rfl
  rw [split, ← looped.length_directions, getElem?_take, getElem?_take, loopDirections,
    flatMap_cons, getElem?_append_right (Nat.le_add_right _ _), Nat.add_sub_cancel_left]
  exact if_congr (by omega) rfl rfl

/-- Combinations that start at different tables are in order when the first key column of the first
one is not descending. -/
theorem lexBefore_of_firstRow_lt (looped : ∀ table ∈ tables, Looped keys table)
    (firstPlaced : Placed tables first) (secondPlaced : Placed tables second)
    (earlier : firstRow first < firstRow second) :
    lexBefore ((loopDirections keys tables).take count) (keyValues tables first)
        (keyValues tables second) ↔
      ((loopDirections keys tables).take count)[keyCount (tables.take (firstRow first))]? ≠
        some true := by
  induction firstPlaced generalizing second count with
  | nil => cases secondPlaced; exact absurd earlier (lt_irrefl _)
  | @cons table entry tables first here _ ih =>
    have tableLooped := looped table mem_cons_self
    cases secondPlaced with
    | @cons _ other _ second _ restPlaced =>
      cases other with
      | some row => rw [firstRow_some] at earlier; cases earlier
      | none =>
        cases entry with
        | some row =>
          exact lexBefore_none_iff tableLooped (here row rfl) count first second
        | none =>
          rw [firstRow_none, firstRow_none] at earlier
          rw [lexBefore_keyValues_cons tableLooped (placed_none _), firstRow_none,
            ih (forall_mem_of_forall_mem_cons looped)
              restPlaced (lt_of_succ_lt_succ earlier),
            getElem?_take_loopDirections tableLooped]

end Octo.Physical
