import Octo.Physical.LoopOrder

/-!
# The order of the rows without ORDER BY

When `lp_optimize_order_by` removes the ORDER BY of a plan, the rows have to come out of the loops
in the order of the removed columns. They do, except that the second half of a RIGHT or FULL JOIN
comes last: its NULLs have to come first when they are ordered by a descending column.
-/
namespace Octo.Physical

open Octo.Foundation Kleene Relational List LoopTable

/-! ## The removed ORDER BY -/

/-- A cross reference that is looped over for an ORDER BY column has one value. -/
theorem Fits.reaches {keys marked : List LoopKey} {orders : List OrderColumn}
    {tables : List LoopTable} (fits : Fits keys orders marked) (join : JoinKeys tables marked) :
    Reaches marked tables orders.length := by
  rintro before table after rfl few
  obtain ⟨keysBefore, keysAfter, split, joinBefore, ownKeys⟩ := join.split
  have count : (keysBefore.filter fun key => !key.isCrossReferenceKey).length =
      keyCount before := by
    have columns := congrArg length joinBefore.primary_columns
    rw [length_map, JoinKeys.columns] at columns
    rw [columns, keyCount]
    simp
  cases isXref : table.xrefKey marked with
  | none => simp [hasSeveralXrefValues, isXref]
  | some xref =>
    have first : ∃ primary, table.ownKeys marked = xref :: primary ∧ xref.isFixedXref = true := by
      unfold xrefKey at isXref
      generalize table.ownKeys marked = own at isXref ownKeys
      cases ownKeys with
      | plain primary =>
        have found := find?_some isXref
        rw [(primary.mem (mem_of_find?_eq_some isXref)).2] at found
        cases found
      | @xref key primary _ fixed _ =>
        rw [find?_cons_of_pos (LoopKey.isCrossReferenceKey_of_isFixedXref fixed)] at isXref
        cases isXref
        exact ⟨primary, rfl, fixed⟩
    obtain ⟨primary, own, fixed⟩ := first
    rw [own, append_assoc] at split
    rw [split] at fits
    have single := fits.isFixedToOneValue fixed
      (fun key member => joinBefore.isFixedXref_of_mem member) (by rwa [count])
    unfold hasSeveralXrefValues
    unfold LoopKey.isFixedToOneValue at single
    rw [isXref, Option.bind_some]
    cases fixedTo : xref.fix with
    | none => rfl
    | some fix =>
      rw [fixedTo] at single
      cases fix <;> first | rfl | cases single

/-- The body of a plan: a combination that meets the WHERE clause is added to the output. -/
def outputWhere (condition : Tuple KeyRow → Bool) (tuple : Tuple KeyRow)
    (output : List (Tuple KeyRow)) : List (Tuple KeyRow) :=
  if condition tuple then output ++ [tuple] else output

theorem foldl_outputWhere (condition : Tuple KeyRow → Bool) (tuples output : List (Tuple KeyRow)) :
    tuples.foldl (fun result tuple => outputWhere condition tuple result) output =
      output ++ tuples.filter condition := by
  induction tuples generalizing output with
  | nil => simp
  | cons tuple rest ih =>
    rw [foldl_cons, ih, outputWhere, filter_cons]
    split <;> simp

/-- Combinations of the result that start at different tables are not ordered by a descending column
at the first one of these tables. -/
def AscendsAtStart (tables : List LoopTable) (orders : List OrderColumn)
    (condition : Tuple KeyRow → Bool) (result : Multiset (Tuple KeyRow)) : Prop :=
  ∀ first ∈ result, ∀ second ∈ result, condition first = true → condition second = true →
    firstRow first < firstRow second →
      orders[keyCount (tables.take (firstRow first))]?.map OrderColumn.descending ≠ some true

section Removed

variable {zwrite : MValue → MValue} {tables : List LoopTable} {marked : List LoopKey}
  {orders : List OrderColumn} {first : JoinTable KeyRow} {rest : List (JoinTable KeyRow)}

/-- The rows come in the order of the marked loops unless a second half comes at the wrong place. -/
theorem filter_joinTuples_pairwise_iff (plus : UnaryPlus) (join : JoinKeys tables marked)
    (reaches : Reaches marked tables orders.length) (ordered : Forall₂ Ordered
      ((marked.filter fun key => !key.isCrossReferenceKey).take orders.length) orders)
    (emits : Forall₂ (Emits zwrite marked) tables (first :: rest))
    (starts : first.joinType = .noJoin) (condition : Tuple KeyRow → Bool) :
    ((joinTuples (first :: rest)).filter condition).Pairwise (SortedBefore plus tables orders) ↔
      AscendsAtStart tables orders condition (scannedJoin (first :: rest)) := by
  have looped := fun table (member : table ∈ tables) => join.looped member
  have placed {tuple : Tuple KeyRow}
      (member : tuple ∈ (joinTuples (first :: rest)).filter condition) : Placed tables tuple :=
    placed_of_mem_joinTuples emits looped (mem_filter.mp member).1
  have sorted := (joinTuples_pairwise emits starts looped reaches).filter condition
  rw [List.Pairwise.iff_of_mem fun inFirst inSecond =>
    sortedBefore_iff plus join ordered (placed inFirst) (placed inSecond)]
  rw [pairwise_iff_of_rank sorted]
  have inResult (tuple : Tuple KeyRow) : tuple ∈ (joinTuples (first :: rest)).filter condition ↔
      tuple ∈ scannedJoin (first :: rest) ∧ condition tuple = true := by
    rw [mem_filter, ← coe_joinTuples, Multiset.mem_coe]
  have cross {tuple other : Tuple KeyRow}
      (inTuples : tuple ∈ (joinTuples (first :: rest)).filter condition)
      (otherIn : other ∈ (joinTuples (first :: rest)).filter condition)
      (earlier : firstRow tuple < firstRow other) :
      lexBefore ((loopDirections marked tables).take orders.length) (keyValues tables tuple)
          (keyValues tables other) ↔
        orders[keyCount (tables.take (firstRow tuple))]?.map OrderColumn.descending ≠
          some true := by
    rw [lexBefore_of_firstRow_lt looped (placed inTuples) (placed otherIn) earlier,
      take_loopDirections join ordered, getElem?_map]
  constructor
  · intro inOrder tuple inTuples other otherIn holds otherHolds earlier
    have tupleMem := (inResult tuple).mpr ⟨inTuples, holds⟩
    have otherMem := (inResult other).mpr ⟨otherIn, otherHolds⟩
    exact (cross tupleMem otherMem earlier).mp (inOrder tuple tupleMem other otherMem earlier)
  · intro ascends tuple inTuples other otherIn earlier
    refine (cross inTuples otherIn earlier).mpr ?_
    obtain ⟨tupleMem, holds⟩ := (inResult tuple).mp inTuples
    obtain ⟨otherMem, otherHolds⟩ := (inResult other).mp otherIn
    exact ascends tuple tupleMem other otherMem holds otherHolds earlier

end Removed

theorem JoinKeys.optimized {tables : List LoopTable} {keys : List LoopKey}
    (join : JoinKeys tables keys) (orders : List OrderColumn) :
    JoinKeys tables (lpOptimizeOrderBy keys orders).1 := by
  obtain same | ⟨marked, isMarked, fits⟩ := lpOptimizeOrderBy_cases keys orders
  · rwa [same]
  · rw [isMarked]
    exact join.marked fits.sameKeys

instance (plus : UnaryPlus) (tables : List LoopTable) (orders : List OrderColumn) :
    DecidableRel (SortedBefore plus tables orders) := fun _ _ =>
  inferInstanceAs (Decidable (lexBefore _ _ _))

/-- `id INTEGER PRIMARY KEY`. -/
def idKeyColumn : KeyColumn := ⟨"id", .integer, none, false, false, none⟩

/-- The row of a number with one digit. -/
def digitRow (digit : Fin 10) : KeyRow := [.text [48 + UInt8.ofNat digit]]

theorem keyValue_digitRow (digit : Fin 10) :
    Forall₂ KeyValue [some idKeyColumn] (digitRow digit) := by
  refine .cons ⟨?_, nofun, fun _ => ⟨_, rfl, ?_⟩⟩ .nil
  · exact fun same => nomatch same
  · revert digit
    decide +kernel

/-- A table with the column `id` only. -/
def idTable (uniqueId : Nat) (joinType : JoinType) (on : Option (Tuple KeyRow → Truth))
    (digits : List (Fin 10)) : LoopTable where
  uniqueId := uniqueId
  joinType := joinType
  on := on
  keyColumns := [some idKeyColumn]
  rows := digits.map digitRow
  otherColumn _ _ := .null
  endTest _ _ _ := false
  hasKey := List.cons_ne_nil _ _
  distinct := List.nodup_singleton _
  keyValues row member := by
    obtain ⟨digit, -, rfl⟩ := List.mem_map.mp member
    exact keyValue_digitRow digit

/-- The key of a table with the column `id`. -/
def idKey (uniqueId : Nat) : LoopKey := ⟨uniqueId, some idKeyColumn, false, none, false⟩

/-- `t1 RIGHT JOIN t2 ON t1.id = t2.id`, where `t1` has a row 1 and `t2` has the rows 1 and 2. -/
def rightJoinTables : List LoopTable :=
  [idTable 1 .noJoin none [1], idTable 2 .rightJoin (some fun tuple =>
      match tuple with
      | [some left, some right] => if left = right then .true else .false
      | _ => .unknown) [1, 2]]

/-- The keys of both tables. -/
def rightJoinKeys : List LoopKey := [idKey 1, idKey 2]

/-- `ORDER BY t1.id`. -/
def orderByFirstId (descending : Bool) : List OrderColumn := [.columnAlias 1 idKeyColumn descending]

/-- The unary plus where all values are numbers already. -/
def numbersPlus : UnaryPlus := ⟨id, rfl, fun _ _ => rfl⟩

theorem ownKeys_idTable (uniqueId : Nat) (joinType : JoinType) (on : Option (Tuple KeyRow → Truth))
    (digits : List (Fin 10)) : OwnKeys (idTable uniqueId joinType on digits) [idKey uniqueId] :=
  .plain (List.Forall₂.cons ⟨rfl, rfl, rfl⟩ List.Forall₂.nil)

theorem joinKeys_rightJoin : JoinKeys rightJoinTables rightJoinKeys := by
  refine .cons (ownKeys_idTable 1 _ _ _)
    (.cons (ownKeys_idTable 2 _ _ _) .nil fun _ member => nomatch member) fun other member => ?_
  rw [mem_singleton.mp member]
  exact fun same => nomatch same

/-- The keys after the optimization. -/
def rightJoinMarked (descending : Bool) : List LoopKey :=
  (lpOptimizeOrderBy rightJoinKeys (orderByFirstId descending)).1

/-- The tables of the join code. -/
def rightJoinCode (descending : Bool) : List (JoinTable KeyRow) :=
  rightJoinTables.map (LoopTable.joinTable id (rightJoinMarked descending))

theorem rightJoinMarked_plain (descending : Bool) : ∀ key ∈ rightJoinMarked descending,
    key.isPlain = true ∧ key.fix.isNone = true ∧ key.isCrossReferenceKey = false := by
  cases descending <;> decide +kernel

theorem emits_rightJoinCode (descending : Bool) :
    Forall₂ (Emits id (rightJoinMarked descending)) rightJoinTables
      (rightJoinCode descending) := by
  have join : JoinKeys rightJoinTables (rightJoinMarked descending) :=
    joinKeys_rightJoin.optimized _
  refine forall₂_map_right_iff.mpr (forall₂_same.mpr fun table member => ?_)
  have own (key : LoopKey) (inOwn : key ∈ table.ownKeys (rightJoinMarked descending)) :=
    rightJoinMarked_plain descending key (mem_filter.mp inOwn).1
  have noXref : table.xrefKey (rightJoinMarked descending) = none :=
    find?_eq_none.mpr fun key inOwn => by simp [(own key inOwn).2.2]
  refine emits_joinTable (join.looped member) (by simp [hasSeveralXrefValues, noXref])
    fun tuple row inScan => ?_
  rwa [scan_unfixed fun key inOwn => (own key inOwn).2] at inScan

/-- The rows that the emitted code outputs. -/
def rightJoinOutput (descending : Bool) : List (Tuple KeyRow) :=
  ((tmplTablejoin (rightJoinCode descending)).exec (outputWhere fun _ => true)
    (MState.initial [])).result

end Octo.Physical
