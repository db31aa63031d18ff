import Octo.Physical.KeyLoops

/-!
# The removal of ORDER BY

`lp_optimize_order_by` compares the ORDER BY columns of a plan with its keys, in two passes over
both lists. The first pass finds out whether the loops over the keys can produce the rows in the
wanted order, the second one marks the keys whose loops have to be descending. The ORDER BY is
removed when both lists have been walked to the end of the ORDER BY columns.
-/
namespace Octo.Physical

open Octo.Foundation Relational List LoopKey

variable {key : LoopKey} {keys : List LoopKey} {tables : List LoopTable} {table : LoopTable}
  {own : List LoopKey} {order : OrderColumn}

/-- An ORDER BY column. -/
inductive OrderColumn
  /-- A column of a table. -/
  | columnAlias (uniqueId : Nat) (column : KeyColumn) (descending : Bool)
  /-- Every other expression. -/
  | expression (type : ColumnType) (value : Tuple KeyRow → MValue) (descending : Bool)

/-- The direction is DESC. -/
def OrderColumn.descending : OrderColumn → Bool
  | .columnAlias _ _ descending | .expression _ _ descending => descending

/-! ## The optimization -/

namespace LoopKey

variable (key : LoopKey)

/-- An `LP_KEY_FIX` of a cross reference. -/
def isFixedXref : Bool := key.fix.isSome && key.isCrossReferenceKey

/-- `ok_to_optimize`: the key is fixed by `=` or `IS`. -/
def isFixedToOneValue : Bool :=
  match key.fix with
  | some (.equals _) | some .isNull => true
  | some (.inList _) | some (.range _ _) | none => false

/-- The key is accepted for an ORDER BY column. The first pass also checks the type of the column
and, for a descending loop, that it has no END keyword. -/
def ordersBy (marks : Bool) : OrderColumn → Bool
  | .columnAlias uniqueId column descending =>
    key.uniqueId = uniqueId && key.column = some column &&
      (marks || (column.type.isNumber && !(descending && column.hasEnd)))
  | .expression _ _ _ => false

/-- The second pass marks the keys of descending columns. -/
def mark (marks : Bool) (order : OrderColumn) : LoopKey :=
  if marks && order.descending then { key with emitDescOrder := true } else key

end LoopKey

theorem LoopKey.isFixedXref_mark (key : LoopKey) (marks : Bool) (order : OrderColumn) :
    (key.mark marks order).isFixedXref = key.isFixedXref := by
  unfold mark
  split <;> rfl

/-- One pass: the keys, and the ORDER BY columns at which it stops. -/
def orderByPass (marks : Bool) :
    List LoopKey → List OrderColumn → List LoopKey × List OrderColumn
  | keys, [] => (keys, [])
  | [], orders => ([], orders)
  | key :: keys, order :: orders =>
    if key.isFixedXref then
      if key.isFixedToOneValue then
        let (marked, left) := orderByPass marks keys (order :: orders)
        (key :: marked, left)
      else (key :: keys, order :: orders)
    else if key.ordersBy marks order then
      let (marked, left) := orderByPass marks keys orders
      (key.mark marks order :: marked, left)
    else (key :: keys, order :: orders)

/-- `lp_optimize_order_by`: the keys and the ORDER BY columns of the plan after it. -/
def lpOptimizeOrderBy (keys : List LoopKey) (orders : List OrderColumn) :
    List LoopKey × List OrderColumn :=
  let (keys, left) := orderByPass false keys orders
  if left.isEmpty then
    let (keys, left) := orderByPass true keys orders
    if left.isEmpty then (keys, []) else (keys, orders)
  else (keys, orders)

/-! ## What the passes do -/

/-- The keys of a plan fit its ORDER BY columns and are marked with their directions. -/
inductive Fits : List LoopKey → List OrderColumn → List LoopKey → Prop
  | done (keys : List LoopKey) : Fits keys [] keys
  | skip {key : LoopKey} {keys marked : List LoopKey} {orders : List OrderColumn}
      (isXref : key.isFixedXref = true) (single : key.isFixedToOneValue = true)
      (rest : Fits keys orders marked) : Fits (key :: keys) orders (key :: marked)
  | take {key : LoopKey} {keys marked : List LoopKey} {order : OrderColumn}
      {orders : List OrderColumn} (notXref : key.isFixedXref = false)
      (accepted : key.ordersBy false order = true) (rest : Fits keys orders marked) :
      Fits (key :: keys) (order :: orders) (key.mark true order :: marked)

theorem LoopKey.ordersBy_of_first
    (accepted : key.ordersBy false order = true) : key.ordersBy true order = true := by
  cases order with
  | columnAlias uniqueId column descending =>
    simp only [ordersBy, Bool.and_eq_true, Bool.true_or, and_true] at accepted ⊢
    exact accepted.1
  | expression type value descending => cases accepted

/-- The first pass changes no key. -/
theorem orderByPass_false_keys (keys : List LoopKey) (orders : List OrderColumn) :
    (orderByPass false keys orders).1 = keys := by
  induction keys generalizing orders with
  | nil => cases orders <;> rfl
  | cons key keys ih =>
    cases orders with
    | nil => rfl
    | cons order orders =>
      unfold orderByPass
      split
      all_goals
        split
        · exact congrArg (key :: ·) (ih _)
        · rfl

/-- When the first pass comes to the end of the ORDER BY columns, so does the second one, and it
marks the keys. -/
theorem fits_of_orderByPass {orders : List OrderColumn}
    (first : (orderByPass false keys orders).2 = []) :
    ∃ marked, orderByPass true keys orders = (marked, []) ∧ Fits keys orders marked := by
  induction keys generalizing orders with
  | nil =>
    cases orders with
    | nil => exact ⟨[], rfl, .done []⟩
    | cons order orders => cases first
  | cons key keys ih =>
    cases orders with
    | nil => exact ⟨key :: keys, rfl, .done _⟩
    | cons order orders =>
      unfold orderByPass at first ⊢
      split at first
      · rename_i isXref
        rw [if_pos isXref]
        split at first
        · rename_i single
          obtain ⟨marked, second, fits⟩ := ih first
          rw [if_pos single, second]
          exact ⟨key :: marked, rfl, .skip isXref single fits⟩
        · cases first
      · rename_i notXref
        rw [if_neg notXref]
        split at first
        · rename_i accepted
          obtain ⟨marked, second, fits⟩ := ih first
          rw [if_pos (ordersBy_of_first accepted), second]
          exact ⟨_, rfl, .take (Bool.eq_false_iff.mpr notXref) accepted fits⟩
        · cases first

/-- The optimization leaves the plan as it was, or removes the ORDER BY and marks the keys. -/
theorem lpOptimizeOrderBy_cases (keys : List LoopKey) (orders : List OrderColumn) :
    lpOptimizeOrderBy keys orders = (keys, orders) ∨
      ∃ marked, lpOptimizeOrderBy keys orders = (marked, []) ∧ Fits keys orders marked := by
  unfold lpOptimizeOrderBy
  have same := orderByPass_false_keys keys orders
  cases left : (orderByPass false keys orders).2 with
  | nil =>
    obtain ⟨marked, second, fits⟩ := fits_of_orderByPass left
    refine Or.inr ⟨marked, ?_, fits⟩
    dsimp only
    rw [left, same, second]
    rfl
  | cons order rest =>
    refine Or.inl ?_
    dsimp only
    rw [left, same]
    rfl

/-! ## Keys in the order of the tables -/

/-- The keys of the primary key columns of a table. -/
def PrimaryKeys (table : LoopTable) (primary : List LoopKey) : Prop :=
  List.Forall₂ (fun key column => key.uniqueId = table.uniqueId ∧ key.column = column ∧
    key.isCrossReferenceKey = false) primary table.keyColumns

/-- The keys of a table: the fixed key of a cross reference, if there is one, and the keys of the
primary key columns. -/
inductive OwnKeys (table : LoopTable) : List LoopKey → Prop
  | plain {primary : List LoopKey} (keys : PrimaryKeys table primary) : OwnKeys table primary
  | xref {key : LoopKey} {primary : List LoopKey} (sameTable : key.uniqueId = table.uniqueId)
      (isXref : key.isFixedXref = true) (keys : PrimaryKeys table primary) :
      OwnKeys table (key :: primary)

/-- The keys of a plan stand in the order of its tables. -/
inductive JoinKeys : List LoopTable → List LoopKey → Prop
  | nil : JoinKeys [] []
  | cons {table : LoopTable} {tables : List LoopTable} {own keys : List LoopKey}
      (ownKeys : OwnKeys table own) (rest : JoinKeys tables keys)
      (distinct : ∀ other ∈ tables, other.uniqueId ≠ table.uniqueId) :
      JoinKeys (table :: tables) (own ++ keys)

theorem LoopKey.isCrossReferenceKey_of_isFixedXref (isXref : key.isFixedXref = true) :
    key.isCrossReferenceKey = true :=
  (Bool.and_eq_true_iff.mp isXref).2

theorem PrimaryKeys.mem {primary : List LoopKey} (keys : PrimaryKeys table primary)
    (member : key ∈ primary) : key.uniqueId = table.uniqueId ∧ key.isCrossReferenceKey = false := by
  unfold PrimaryKeys at keys
  generalize table.keyColumns = columns at keys
  induction keys with
  | nil => cases member
  | cons here _ ih =>
    obtain rfl | later := mem_cons.mp member
    · exact ⟨here.1, here.2.2⟩
    · exact ih later

theorem OwnKeys.uniqueId (ownKeys : OwnKeys table own) (member : key ∈ own) :
    key.uniqueId = table.uniqueId := by
  cases ownKeys with
  | plain keys => exact (keys.mem member).1
  | xref sameTable _ keys =>
    obtain rfl | later := mem_cons.mp member
    · exact sameTable
    · exact (keys.mem later).1

/-- The primary keys among the keys of a table. -/
theorem OwnKeys.filter (ownKeys : OwnKeys table own) :
    PrimaryKeys table (own.filter fun key => !key.isCrossReferenceKey) := by
  have keep {primary : List LoopKey} (keys : PrimaryKeys table primary) :
      (primary.filter fun key => !key.isCrossReferenceKey) = primary :=
    filter_eq_self.mpr fun key member => by simp [(keys.mem member).2]
  cases ownKeys with
  | plain keys => rwa [keep keys]
  | xref _ isXref keys =>
    rw [filter_cons_of_neg (by simp [isCrossReferenceKey_of_isFixedXref isXref]), keep keys]
    exact keys

namespace JoinKeys

theorem uniqueId_mem (join : JoinKeys tables keys) (member : key ∈ keys) :
    ∃ table ∈ tables, key.uniqueId = table.uniqueId := by
  induction join with
  | nil => cases member
  | cons ownKeys rest _ ih =>
    obtain own | later := mem_append.mp member
    · exact ⟨_, mem_cons_self, ownKeys.uniqueId own⟩
    · obtain ⟨table, inTables, same⟩ := ih later
      exact ⟨table, mem_cons_of_mem _ inTables, same⟩

section Append

variable {own : List LoopKey}

theorem ownKeys_append_self (ownKeys : OwnKeys table own) (rest : JoinKeys tables keys)
    (distinct : ∀ other ∈ tables, other.uniqueId ≠ table.uniqueId) :
    table.ownKeys (own ++ keys) = own := by
  rw [LoopTable.ownKeys, filter_append, filter_eq_self.mpr, filter_eq_nil_iff.mpr, append_nil]
  · intro key member
    obtain ⟨other, inTables, isOther⟩ := rest.uniqueId_mem member
    simp [isOther, distinct other inTables]
  · exact fun key member => by simp [ownKeys.uniqueId member]

theorem ownKeys_append_other (ownKeys : OwnKeys table own) {other : LoopTable}
    (differs : other.uniqueId ≠ table.uniqueId) :
    other.ownKeys (own ++ keys) = other.ownKeys keys := by
  rw [LoopTable.ownKeys, filter_append, filter_eq_nil_iff.mpr]
  · rfl
  · exact fun key member => by simp [ownKeys.uniqueId member, differs.symm]

end Append

/-- The keys of a table among the keys of the plan. -/
theorem split {before : List LoopTable} {after : List LoopTable}
    (join : JoinKeys (before ++ table :: after) keys) :
    ∃ keysBefore keysAfter, keys = keysBefore ++ table.ownKeys keys ++ keysAfter ∧
      JoinKeys before keysBefore ∧ OwnKeys table (table.ownKeys keys) := by
  induction before generalizing keys with
  | nil =>
    cases join with
    | cons ownKeys rest distinct =>
      rename_i own keys
      have same := ownKeys_append_self ownKeys rest distinct
      refine ⟨[], keys, ?_, .nil, ?_⟩
      · rw [same, nil_append]
      · rwa [same]
  | cons first before ih =>
    cases join with
    | cons ownKeys rest distinct =>
      rename_i own keys
      obtain ⟨keysBefore, keysAfter, split, joinBefore, tableKeys⟩ := ih rest
      have inRest : table ∈ before ++ table :: after :=
        mem_append_right _ mem_cons_self
      have same : table.ownKeys (own ++ keys) = table.ownKeys keys :=
        ownKeys_append_other ownKeys (distinct table inRest)
      refine ⟨own ++ keysBefore, keysAfter, ?_, .cons ownKeys joinBefore fun other member => ?_, ?_⟩
      · rw [same]
        nth_rewrite 1 [split]
        simp only [append_assoc]
      · exact distinct other (mem_append_left _ member)
      · rwa [same]

/-- A cross reference always has a fixed key. -/
theorem isFixedXref_of_mem (join : JoinKeys tables keys) (member : key ∈ keys)
    (isXref : key.isCrossReferenceKey = true) : key.isFixedXref = true := by
  induction join with
  | nil => cases member
  | cons ownKeys rest _ ih =>
    obtain own | later := mem_append.mp member
    · cases ownKeys with
      | plain keys => rw [(keys.mem own).2] at isXref; cases isXref
      | xref _ fixed keys =>
        obtain rfl | primary := mem_cons.mp own
        · exact fixed
        · rw [(keys.mem primary).2] at isXref; cases isXref
    · exact ih later

/-- The tables and columns of the loops over primary keys. -/
def columns (tables : List LoopTable) : List (Nat × Option KeyColumn) :=
  tables.flatMap fun table => table.keyColumns.map fun column => (table.uniqueId, column)

theorem primary_columns (join : JoinKeys tables keys) :
    ((keys.filter fun key => !key.isCrossReferenceKey).map fun key =>
      (key.uniqueId, key.column)) = columns tables := by
  induction join with
  | nil => rfl
  | cons ownKeys rest _ ih =>
    rw [filter_append, map_append, ih]
    congr 1
    have primary := ownKeys.filter
    rw [← forall₂_eq_eq_eq, forall₂_map_left_iff, forall₂_map_right_iff]
    exact primary.imp fun key column ⟨sameTable, sameColumn, _⟩ => by rw [sameTable, sameColumn]

/-- The loops over primary keys, table by table. -/
theorem flatMap_primaryKeys (join : JoinKeys tables keys) :
    (tables.flatMap fun table => table.primaryKeys keys) =
      keys.filter fun key => !key.isCrossReferenceKey := by
  induction join with
  | nil => rfl
  | cons ownKeys rest distinct ih =>
    rw [flatMap_cons, filter_append, ← ih, LoopTable.primaryKeys,
      ownKeys_append_self ownKeys rest distinct]
    refine congrArg _ (flatMap_congr fun other member => ?_)
    rw [LoopTable.primaryKeys, ownKeys_append_other ownKeys (distinct other member)]
    rfl

end JoinKeys

/-! ## The marked keys -/

/-- Two keys differ in their direction only. -/
def SameKey (key other : LoopKey) : Prop :=
    { key with emitDescOrder := other.emitDescOrder } = other

theorem SameKey.isFixedXref {other : LoopKey} (same : SameKey key other) :
    key.isFixedXref = other.isFixedXref := by
  rw [← same]
  rfl

/-- The keys of a plan stay in their order when they are marked. -/
theorem OwnKeys.marked {marked : List LoopKey} (ownKeys : OwnKeys table own)
    (same : Forall₂ SameKey marked own) : OwnKeys table marked := by
  have primaryMarked {primary marked : List LoopKey} (keys : PrimaryKeys table primary)
      (same : Forall₂ SameKey marked primary) : PrimaryKeys table marked := by
    unfold PrimaryKeys at keys ⊢
    generalize table.keyColumns = columns at keys ⊢
    induction same generalizing columns with
    | nil => exact keys
    | cons here _ ih =>
      cases keys with
      | cons first rest =>
        refine .cons ?_ (ih _ rest)
        rw [← here] at first
        exact first
  cases ownKeys with
  | plain keys => exact .plain (primaryMarked keys same)
  | xref sameTable isXref keys =>
    cases same with
    | cons here rest =>
      refine .xref ?_ (here.isFixedXref.trans isXref) (primaryMarked keys rest)
      rw [← here] at sameTable
      exact sameTable

theorem JoinKeys.marked {marked : List LoopKey} (join : JoinKeys tables keys)
    (same : Forall₂ SameKey marked keys) : JoinKeys tables marked := by
  induction join generalizing marked with
  | nil =>
    cases same
    exact .nil
  | cons ownKeys _ distinct ih =>
    have own := forall₂_take_append _ _ _ same
    have rest := forall₂_drop_append _ _ _ same
    have joined := JoinKeys.cons (ownKeys.marked own) (ih rest) distinct
    rwa [take_append_drop] at joined

/-- The loop over a key has the direction of an ORDER BY column and is a loop over that column,
whose values are numbers. -/
def Ordered (key : LoopKey) (order : OrderColumn) : Prop :=
  ∃ column, order = .columnAlias key.uniqueId column key.emitDescOrder ∧
    key.column = some column ∧ column.type.isNumber = true

namespace Fits

variable {marked : List LoopKey} {orders : List OrderColumn}

theorem sameKeys (fits : Fits keys orders marked) : Forall₂ SameKey marked keys := by
  induction fits with
  | done keys => exact forall₂_same.mpr fun key _ => rfl
  | skip _ _ _ ih => exact .cons rfl ih
  | take _ _ _ ih =>
    refine .cons ?_ ih
    unfold mark
    split <;> rfl

/-- A key that is compared with an ORDER BY column is not the key of a cross reference. -/
theorem isPrimary (notXref : key.isFixedXref = false)
    (fixedXref : key.isCrossReferenceKey = true → key.isFixedXref = true) :
    key.isCrossReferenceKey = false := by
  rw [← Bool.not_eq_true]
  intro isXref
  rw [fixedXref isXref] at notXref
  cases notXref

theorem ordered_mark (ascending : key.emitDescOrder = false)
    (accepted : key.ordersBy false order = true) : Ordered (key.mark true order) order := by
  cases order with
  | expression type value descending => cases accepted
  | columnAlias uniqueId column descending =>
    simp only [ordersBy, Bool.and_eq_true, decide_eq_true_eq, Bool.false_or] at accepted
    obtain ⟨⟨rfl, isColumn⟩, isNumber, -⟩ := accepted
    refine ⟨column, ?_, ?_, isNumber⟩
    · cases descending with
      | false =>
        change _ = OrderColumn.columnAlias key.uniqueId column key.emitDescOrder
        rw [ascending]
      | true => rfl
    · unfold mark
      split <;> exact isColumn

/-- The loops over the first primary keys are those of the ORDER BY columns. -/
theorem ordered (fits : Fits keys orders marked)
    (ascending : ∀ key ∈ keys, key.emitDescOrder = false)
    (fixedXref : ∀ key ∈ keys, key.isCrossReferenceKey = true → key.isFixedXref = true) :
    Forall₂ Ordered
      ((marked.filter fun key => !key.isCrossReferenceKey).take orders.length) orders := by
  induction fits with
  | done keys => exact .nil
  | skip isXref _ _ ih =>
    rw [filter_cons_of_neg (by simp [isCrossReferenceKey_of_isFixedXref isXref])]
    exact ih (forall_mem_of_forall_mem_cons ascending)
      (forall_mem_of_forall_mem_cons fixedXref)
  | @take key keys marked order orders notXref accepted _ ih =>
    have primary : (key.mark true order).isCrossReferenceKey = false := by
      unfold mark
      split <;> exact isPrimary notXref (fixedXref key mem_cons_self)
    rw [filter_cons_of_pos (by simp [primary]), length_cons]
    refine .cons (ordered_mark (ascending key mem_cons_self) accepted) ?_
    exact ih (forall_mem_of_forall_mem_cons ascending)
      (forall_mem_of_forall_mem_cons fixedXref)

/-- A cross reference that comes before the key of an ORDER BY column is fixed to one value. -/
theorem isFixedToOneValue {before after : List LoopKey}
    (fits : Fits keys orders (before ++ key :: after)) (isXref : key.isFixedXref = true)
    (fixedXref : ∀ other ∈ before, other.isCrossReferenceKey = true → other.isFixedXref = true)
    (reached : (before.filter fun other => !other.isCrossReferenceKey).length < orders.length) :
    key.isFixedToOneValue = true := by
  induction before generalizing keys orders with
  | nil =>
    cases fits with
    | done => cases reached
    | skip _ single _ => exact single
    | take notXref =>
      rw [isFixedXref_mark, notXref] at isXref
      cases isXref
  | cons first before ih =>
    have later := forall_mem_of_forall_mem_cons fixedXref
    cases fits with
    | done => exact absurd reached (Nat.not_lt_zero _)
    | skip firstXref _ rest =>
      refine ih rest later ?_
      rwa [filter_cons_of_neg (by simp [isCrossReferenceKey_of_isFixedXref firstXref])] at reached
    | @take key _ _ order _ notXref _ rest =>
      refine ih rest later ?_
      have primary : (key.mark true order).isCrossReferenceKey = false :=
        isPrimary ((key.isFixedXref_mark true order).trans notXref)
          (fixedXref _ mem_cons_self)
      rw [filter_cons_of_pos (by simp [primary])] at reached
      exact Nat.lt_of_succ_lt_succ reached

end Fits

end Octo.Physical
