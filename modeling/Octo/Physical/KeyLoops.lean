import Octo.Foundation.NestedScan
import Octo.Physical.RangeLoop
import Octo.Physical.TableJoin

/-!
# The loops over the keys of a table

`tmpl_tablejoin` emits a loop for every key column of a table, one inside the other: over all
subscripts of a level with `$ORDER`, over a range of them, over the values of an IN list, or a test
for the one value that the key is fixed to. A cross reference is looped over before the primary key,
which is then read below it. The second half of a RIGHT or FULL JOIN loops over the whole primary
key. Every loop is emitted in ascending or in descending order, and visits what it finds in that
order.
-/
namespace Octo.Physical

open Octo.Foundation Kleene Relational List RangeKey Nat SubscriptLevel

/-! ## Columns, keys and tables -/

/-- The types of columns. -/
inductive ColumnType
  | boolean
  | integer
  | numeric
  | string
  | dateTime
deriving DecidableEq

/-- The types whose order is the order of the subscripts. -/
def ColumnType.isNumber : ColumnType → Bool
  | .boolean | .integer | .numeric => true
  | .string | .dateTime => false

/-- What is read of a `SqlColumn`: its type and the values of its keywords. -/
structure KeyColumn where
  name : String
  type : ColumnType
  /-- START. -/
  start : Option MValue
  /-- STARTINCLUDE. -/
  startInclude : Bool
  /-- END is given; the test belongs to the table. -/
  hasEnd : Bool
  /-- ENDPOINT. -/
  endpoint : Option MValue
deriving DecidableEq

/-- A row of a table, by the values of its primary key columns. -/
abbrev KeyRow := List MValue

/-- What a key is fixed to, for the rows of the tables before it. -/
inductive LoopFix
  /-- `=` and `IS`. -/
  | equals (value : Tuple KeyRow → MValue)
  /-- `IS NULL`. -/
  | isNull
  | inList (values : List MValue)
  | range (type : RangeType) (value : Tuple KeyRow → MValue)

/-- What the template and the optimization of ORDER BY read of a `SqlKey`. -/
structure LoopKey where
  uniqueId : Nat
  /-- `none` for the key of a sub-query or of a VALUES clause. -/
  column : Option KeyColumn
  isCrossReferenceKey : Bool
  /-- `none` for an `LP_KEY_ADVANCE`. -/
  fix : Option LoopFix
  emitDescOrder : Bool

/-- A value of a primary key column: it is not empty, and it is a number as M writes it if the type
of the column is a type of numbers. -/
structure KeyValue (column : Option KeyColumn) (value : MValue) : Prop where
  notEmpty : value ≠ ⊥
  notNull : value ≠ .null
  number : (column.any fun column => column.type.isNumber) = true →
    ∃ bytes, value = .text bytes ∧ (MValue.canonicalNumber bytes).isSome = true

/-- A table of the FROM list. -/
structure LoopTable where
  uniqueId : Nat
  joinType : JoinType
  on : Option (Tuple KeyRow → Truth)
  /-- The primary key columns; a sub-query and a VALUES clause have one key without a column. -/
  keyColumns : List (Option KeyColumn)
  rows : List KeyRow
  /-- The values of the other columns. -/
  otherColumn : String → KeyRow → MValue
  /-- The END test of a key column, for the values of the key columns before it and its own. -/
  endTest : String → KeyRow → MValue → Bool
  hasKey : keyColumns ≠ []
  distinct : keyColumns.Nodup
  keyValues : ∀ row ∈ rows, List.Forall₂ KeyValue keyColumns row

/-- The value of a column in a row. -/
def LoopTable.columnValue (table : LoopTable) (column : KeyColumn) (row : KeyRow) : MValue :=
  if some column ∈ table.keyColumns then row.getD (table.keyColumns.idxOf (some column)) ⊥
  else table.otherColumn column.name row

/-! ## The loop of one key -/

/-- The subscripts of a level that has the given values. -/
def levelOf (values : List MValue) : SubscriptLevel MValue where
  subs := (values.filter (· ≠ ⊥)).dedup.insertionSort (· ≤ ·)
  sorted := by
    have sorted := List.pairwise_insertionSort (· ≤ ·) (values.filter (· ≠ ⊥)).dedup
    have distinct := (List.perm_insertionSort (· ≤ ·) (values.filter (· ≠ ⊥)).dedup).nodup_iff.mpr
      (List.nodup_dedup _)
    exact sorted.imp₂ (fun _ _ before differs => lt_of_le_of_ne before differs) distinct
  notNull sub stored := by
    rw [List.mem_insertionSort, List.mem_dedup, List.mem_filter] at stored
    exact of_decide_eq_true stored.2

@[simp]
theorem mem_levelOf {values : List MValue} {value : MValue} :
    value ∈ (levelOf values).subs ↔ value ∈ values ∧ value ≠ ⊥ := by
  simp [levelOf]

/-- The level of a key that is fixed to a range. The cross reference of a string column has the NULL
values under the prefix alone. -/
def rangeLevelOf (key : RangeKey) (values : List MValue) : RangeLevel key where
  toSubscriptLevel := levelOf ((values.filter (· ≠ .null)).map key.subscript)
  stored sub member := by
    obtain ⟨value, inValues, rfl⟩ := List.mem_map.mp (mem_levelOf.mp member).1
    exact ⟨value, of_decide_eq_true (List.mem_filter.mp inValues).2, rfl⟩

namespace LoopKey

variable (zwrite : MValue → MValue) (key : LoopKey) (table : LoopTable)

/-- `tmpl_key_start`: where the loop over a level starts. A descending loop writes ENDPOINT with
`$zwrite`. -/
def startValue : MValue :=
  match key.column with
  | none => ⊥
  | some column =>
    if !key.emitDescOrder then column.start.getD ⊥
    else
      match column.endpoint with
      | none => ⊥
      | some endpoint => if endpoint = ⊥ then ⊥ else zwrite endpoint

/-- The `DO:$DATA` in front of the loop. -/
def includesStart : Bool :=
  key.column.any fun column =>
    if !key.emitDescOrder then column.startInclude else column.endpoint.isSome

/-- `tmpl_key_end`: the `QUIT:` of the loop over a level. -/
def endsAt (outer : KeyRow) (value : MValue) : Bool :=
  match key.column with
  | none => value = ⊥
  | some column =>
    if !key.emitDescOrder then
      match column.hasEnd, column.endpoint with
      | false, none => value = ⊥
      | true, none => table.endTest column.name outer value
      | false, some endpoint => value = ⊥ || endpoint < value
      | true, some endpoint =>
        table.endTest column.name outer value || (value = ⊥ || endpoint < value)
    else
      match column.start with
      | none => value = ⊥
      | some start =>
        if !column.startInclude then value = start else value ≠ start && !(start < value)

/-- The values that `FOR  SET key=$ORDER(...) QUIT:(...)` visits, as long as it does not come to the
null string. -/
def advanceFor (outer : KeyRow) (stored : List MValue) : List MValue :=
  let level := levelOf stored
  let start := key.startValue zwrite
  (if key.includesStart && start ∈ level.subs then [start] else []) ++
    level.walk key.emitDescOrder (key.endsAt table outer) (level.subs.length + 1) start

/-- The emitted loop, which has only its `QUIT:` to end it, ends with the values of `advanceFor`. -/
def Quits (outer : KeyRow) (stored : List MValue) : Prop :=
  let level := levelOf stored
  let start := key.startValue zwrite
  ∃ turns, level.loop key.emitDescOrder (key.endsAt table outer) turns start =
    some (level.walk key.emitDescOrder (key.endsAt table outer) (level.subs.length + 1) start)

/-- The `QUIT:` is for the null string, or for a value that is stored behind the start. -/
def HasEnd (outer : KeyRow) (stored : List MValue) : Prop :=
  key.endsAt table outer ⊥ = true ∨
    ∃ sub ∈ stored, sub ≠ ⊥ ∧ behind key.emitDescOrder (key.startValue zwrite) sub = true ∧
      key.endsAt table outer sub = true

theorem quits_iff_hasEnd (outer : KeyRow) (stored : List MValue) :
    key.Quits zwrite table outer stored ↔ key.HasEnd zwrite table outer stored := by
  refine ((levelOf stored).exists_loop_iff _ _ _).trans (or_congr_right ?_)
  simp only [mem_levelOf, and_assoc]

/-- The values that the loop over the local array of an IN list comes to. It runs its body for a
value before it goes on. -/
def inFor (values : List MValue) : List MValue :=
  let level := levelOf values
  (if ⊥ ∈ values then [⊥] else []) ++
    level.walk key.emitDescOrder (fun _ => false) (level.subs.length + 1) ⊥

/-- The tests for START and ENDPOINT inside the loop over a range. -/
def skipsInRange (column : KeyColumn) (value : MValue) : Bool :=
  (column.start.any fun start =>
    if column.type ≠ .string then
      if column.startInclude then mLess value start else !mLess start value
    else if column.startInclude then mFollows start value
    else !mFollows value start) ||
  column.endpoint.any fun endpoint => endpoint < value

/-- The key as the loop over a range reads it. -/
def rangeKey (type : RangeType) : RangeKey :=
  ⟨type, key.emitDescOrder, key.isCrossReferenceKey,
    key.column.any fun column => column.type = .string⟩

/-- The values that the inner loops are run for, out of the values that are stored under those of
the outer loops. -/
def visits (tuple : Tuple KeyRow) (outer : KeyRow) (stored : List MValue) : List MValue :=
  match key.fix with
  | none => key.advanceFor zwrite table outer stored
  | some (.equals value) =>
    [value tuple].filter fun value => value ≠ .null && value ∈ (levelOf stored).subs
  | some .isNull => if key.column ∉ table.keyColumns ∧ .null ∈ stored then [.null] else []
  | some (.inList values) =>
    (key.inFor values).filter fun value => value ≠ .null && value ∈ (levelOf stored).subs
  | some (.range type value) =>
    let level := rangeLevelOf (key.rangeKey type) stored
    ((key.rangeKey type).visits level (value tuple) (level.subs.length + 1)).filter fun value =>
      !(key.column.any fun column => skipsInRange column value)

end LoopKey

/-! ## The loops of a table -/

namespace LoopTable

variable (zwrite : MValue → MValue) (keys : List LoopKey) (table : LoopTable)

/-- The keys of a table. -/
def ownKeys : List LoopKey := keys.filter fun key => key.uniqueId = table.uniqueId

/-- The keys of the primary key columns. -/
def primaryKeys : List LoopKey := (table.ownKeys keys).filter fun key => !key.isCrossReferenceKey

/-- The key of the cross reference. -/
def xrefKey : Option LoopKey := (table.ownKeys keys).find? fun key => key.isCrossReferenceKey

/-- The loops over the primary key, over the rows that a cross reference leaves. -/
def primaryScan (primary : List LoopKey) (tuple : Tuple KeyRow) (rows : List KeyRow) :
    List KeyRow :=
  nestedScan (fun (key : LoopKey) => key.visits zwrite table tuple) primary [] rows

/-- The rows with a value in the column of the cross reference. -/
def xrefRows (xref : LoopKey) (value : MValue) : List KeyRow :=
  table.rows.filter fun row =>
    xref.column.any fun column => table.columnValue column row = value

/-- The rows that the loops of a table visit, in their order. The second half of a join leaves out
the cross reference and treats all keys as not fixed. -/
def scan (secondHalf : Bool) (tuple : Tuple KeyRow) : List KeyRow :=
  if secondHalf then
    table.primaryScan zwrite ((table.primaryKeys keys).map fun key => { key with fix := none })
      tuple table.rows
  else
    match table.xrefKey keys with
    | none => table.primaryScan zwrite (table.primaryKeys keys) tuple table.rows
    | some xref =>
      (xref.visits zwrite table tuple []
        (table.rows.map fun row => (xref.column.map (table.columnValue · row)).getD ⊥)).flatMap
        fun value =>
          table.primaryScan zwrite (table.primaryKeys keys) tuple (table.xrefRows xref value)

/-- The cross reference is fixed to an IN list or to a range. -/
def hasSeveralXrefValues : Bool :=
  match (table.xrefKey keys).bind LoopKey.fix with
  | some (.inList _) | some (.range _ _) => true
  | _ => false

/-- What holds for every loop over all subscripts of a level that the outer loops come to. -/
def ForLoops (holds : LoopKey → KeyRow → List MValue → Prop) (tuple : Tuple KeyRow) :
    List LoopKey → KeyRow → List KeyRow → Prop
  | [], _, _ => True
  | key :: primary, outer, rows =>
    (key.fix.isNone = true → holds key outer (rows.filterMap List.head?)) ∧
      ∀ sub ∈ key.visits zwrite table tuple outer (rows.filterMap List.head?),
        ForLoops holds tuple primary (outer ++ [sub]) (tailsOf sub rows)

/-- The same for the loops of `scan`. -/
def ForScan (holds : LoopKey → KeyRow → List MValue → Prop) (secondHalf : Bool)
    (tuple : Tuple KeyRow) : Prop :=
  if secondHalf then
    table.ForLoops zwrite holds tuple
      ((table.primaryKeys keys).map fun key => { key with fix := none }) [] table.rows
  else
    match table.xrefKey keys with
    | none => table.ForLoops zwrite holds tuple (table.primaryKeys keys) [] table.rows
    | some xref =>
      ∀ value ∈ xref.visits zwrite table tuple []
          (table.rows.map fun row => (xref.column.map (table.columnValue · row)).getD ⊥),
        table.ForLoops zwrite holds tuple (table.primaryKeys keys) [] (table.xrefRows xref value)

end LoopTable

/-! ## The order of the loops -/

namespace LoopKey

variable {zwrite : MValue → MValue} {key : LoopKey} {table : LoopTable}

theorem advanceFor_pairwise (outer : KeyRow) (stored : List MValue) :
    (key.advanceFor zwrite table outer stored).Pairwise (precedes key.emitDescOrder) := by
  have sorted := ((levelOf stored).inOrder_pairwise key.emitDescOrder).filter fun sub =>
    sub = key.startValue zwrite ∨ behind key.emitDescOrder (key.startValue zwrite) sub = true
  rw [(levelOf stored).filter_start_or_behind] at sorted
  refine sorted.sublist (List.Sublist.append ?_ (walk_sublist _ _ _ _))
  by_cases stored : key.startValue zwrite ∈ (levelOf stored).subs
  · split
    · exact List.Sublist.refl _
    · exact nil_sublist _
  · simp [stored]

theorem inFor_pairwise (values stored : List MValue) :
    ((key.inFor values).filter fun value => value ≠ .null && value ∈ (levelOf stored).subs).Pairwise
      (precedes key.emitDescOrder) := by
  -- No level has the null string as a subscript, so that the first turn finds nothing.
  have first : ((if ⊥ ∈ values then [⊥] else []).filter fun value : MValue =>
      value ≠ .null && value ∈ (levelOf stored).subs) = [] := by
    split <;> simp
  unfold inFor
  rw [filter_append, first]
  refine List.Pairwise.filter _ ?_
  refine ((levelOf values).inOrder_pairwise key.emitDescOrder).sublist ?_
  exact (walk_sublist _ _ _ _).trans (filter_sublist)

section

variable (primary : key.isCrossReferenceKey = false)
include primary

/-- A loop over the primary key has the values themselves as subscripts. -/
theorem rangeKey_columnValue (type : RangeType) : (key.rangeKey type).columnValue = id := by
  funext sub
  simp [columnValue, aimsubNeeded, rangeKey, primary]

theorem range_pairwise (type : RangeType) (level : RangeLevel (key.rangeKey type))
    (bound : MValue) :
    ((key.rangeKey type).visits level bound (level.subs.length + 1)).Pairwise
      (precedes key.emitDescOrder) := by
  have sorted : (level.inOrder key.emitDescOrder).Pairwise (precedes key.emitDescOrder) :=
    level.inOrder_pairwise _
  by_cases isNull : bound = .null
  · rw [isNull, visits_null]
    exact List.Pairwise.nil
  · cases stops : (key.rangeKey type).stopsAtBound with
    | true =>
      rw [visits_of_stops (lt_succ_self _) isNull stops, rangeKey_columnValue primary, map_id]
      exact (sorted.filter _).sublist (takeWhile_sublist _)
    | false =>
      rw [visits_of_starts (lt_succ_self _) isNull stops, rangeKey_columnValue primary, map_id]
      exact sorted.filter _

/-- Every loop over a primary key column visits its values in its direction. -/
theorem visits_pairwise (tuple : Tuple KeyRow) (outer : KeyRow) (stored : List MValue) :
    (key.visits zwrite table tuple outer stored).Pairwise (precedes key.emitDescOrder) := by
  unfold visits
  split
  · exact advanceFor_pairwise outer stored
  · exact (pairwise_singleton _ _).filter _
  · split
    · exact pairwise_singleton _ _
    · exact List.Pairwise.nil
  · exact inFor_pairwise _ stored
  · exact (range_pairwise primary _ _ _).filter _

end

end LoopKey

namespace LoopTable

variable {zwrite : MValue → MValue} {keys : List LoopKey} {table : LoopTable}

theorem isCrossReferenceKey_of_primary {key : LoopKey} (member : key ∈ table.primaryKeys keys) :
    key.isCrossReferenceKey = false := by
  simpa using (mem_filter.mp member).2

/-- The directions of the loops over the primary key. -/
def directions (keys : List LoopKey) (table : LoopTable) : List Bool :=
  (table.primaryKeys keys).map LoopKey.emitDescOrder

theorem primaryScan_pairwise (tuple : Tuple KeyRow) (rows : List KeyRow) :
    (table.primaryScan zwrite (table.primaryKeys keys) tuple rows).Pairwise
      (lexStrict (table.directions keys)) :=
  nestedScan_pairwise (fun _ member _ _ =>
    LoopKey.visits_pairwise (isCrossReferenceKey_of_primary member) tuple _ _) [] rows

/-- A cross reference that is not fixed to several values has one at most. -/
theorem length_xref_visits {xref : LoopKey} (isXref : table.xrefKey keys = some xref)
    (fixed : xref.fix.isSome = true) (single : table.hasSeveralXrefValues keys = false)
    (tuple : Tuple KeyRow) (stored : List MValue) :
    (xref.visits zwrite table tuple [] stored).length ≤ 1 := by
  unfold hasSeveralXrefValues at single
  rw [isXref, Option.bind_some] at single
  unfold LoopKey.visits
  cases isFixed : xref.fix with
  | none => simp [isFixed] at fixed
  | some fixedTo =>
    rw [isFixed] at single
    cases fixedTo with
    | equals value => exact (length_filter_le _ _).trans (le_refl 1)
    | isNull =>
      dsimp only
      split
      · exact le_refl 1
      · exact zero_le 1
    | inList | range => cases single

/-- The rows of a table come in the order of its loops, unless its cross reference has several
values. -/
theorem scan_pairwise (fixedXref : ∀ xref, table.xrefKey keys = some xref → xref.fix.isSome = true)
    (single : table.hasSeveralXrefValues keys = false) (secondHalf : Bool) (tuple : Tuple KeyRow) :
    (table.scan zwrite keys secondHalf tuple).Pairwise (lexStrict (table.directions keys)) := by
  unfold scan
  cases secondHalf with
  | true =>
    have same : table.directions keys =
        ((table.primaryKeys keys).map fun key => { key with fix := none }).map
          LoopKey.emitDescOrder := by
      rw [map_map]
      rfl
    rw [same]
    refine nestedScan_pairwise (fun key member _ _ => LoopKey.visits_pairwise ?_ tuple _ _) [] _
    obtain ⟨own, inOwn, rfl⟩ := mem_map.mp member
    change own.isCrossReferenceKey = false
    exact isCrossReferenceKey_of_primary inOwn
  | false =>
    cases isXref : table.xrefKey keys with
    | none => exact primaryScan_pairwise tuple table.rows
    | some xref =>
      dsimp only
      generalize stored : (table.rows.map fun row =>
        (xref.column.map (table.columnValue · row)).getD ⊥) = values
      have short : (xref.visits zwrite table tuple [] values).length ≤ 1 :=
        length_xref_visits isXref (fixedXref xref isXref) single tuple values
      match found : xref.visits zwrite table tuple [] values with
      | [] => exact List.Pairwise.nil
      | [value] =>
        rw [flatMap_singleton]
        exact primaryScan_pairwise tuple _
      | first :: second :: rest =>
        rw [found] at short
        simp at short

/-- The loops visit rows of the table. -/
theorem mem_rows_of_mem_scan (arity : (table.primaryKeys keys).length = table.keyColumns.length)
    {secondHalf : Bool} {tuple : Tuple KeyRow} {row : KeyRow}
    (member : row ∈ table.scan zwrite keys secondHalf tuple) : row ∈ table.rows := by
  have length (other : KeyRow) (inRows : other ∈ table.rows) :
      other.length = (table.primaryKeys keys).length := by
    rw [arity, (table.keyValues other inRows).length_eq]
  unfold scan at member
  split at member
  · refine mem_of_mem_nestedScan (fun other inRows => ?_) member
    rw [length other inRows, length_map]
  · split at member
    · exact mem_of_mem_nestedScan length member
    · obtain ⟨value, -, inScan⟩ := mem_flatMap.mp member
      refine (mem_filter.mp (mem_of_mem_nestedScan (fun other inRows => ?_) inScan)).1
      exact length other (mem_filter.mp inRows).1

end LoopTable

end Octo.Physical
