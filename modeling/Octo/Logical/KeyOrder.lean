import Octo.Logical.KeyFixingCorrect

/-!
# Fixed keys read earlier keys

`join_tables` appends the keys of each table in the join order. The passes over the ON conditions
and the WHERE clause then fix keys and replace the keys of tables. The position of a table that
decides which side of a conjunct is fixed is computed before each clause, while the clause itself
changes the list. What it decides stays right because the keys stay sorted by the join order of
their tables: a key is fixed to a column of a table that stands before its own in that order, so the
nested loops never read a key before it has a value.
-/
namespace Octo.Logical

open List Nat Or

variable {Value : Type}

/-! ## The passes over a plan -/

/-- The keys that `join_tables` appends for a table: its key columns, or the one key of a VALUES
clause, a sub-query or a view. -/
def joinTableKeys (catalog : Catalog) (uniqueId : Nat) : List (SqlKey Value) :=
  if (catalog uniqueId).isCreateTable then
    (catalog uniqueId).keyColumns.map fun column => ⟨uniqueId, some column, none, false, false⟩
  else [⟨uniqueId, none, none, false, false⟩]

/-- `join_tables` on the tables in their join order. -/
def joinTables (catalog : Catalog) (order : List Nat) : PlanState Value where
  keys := order.flatMap (joinTableKeys catalog)
  lpTables := order.filter fun uniqueId => (catalog uniqueId).isCreateTable
  alternate := []

/-- A clause that is handed to the key fixing pass, with the right table of an ON condition. -/
structure FixClause (Value : Type) where
  rightTableAlias : Option Nat
  clause : Option (Conjunction Value)

/-- The passes of `optimize_logical_plan` over the ON conditions and the WHERE clause. -/
def optimizeClauses (catalog : Catalog) (numOuterJoins : Nat) (clauses : List (FixClause Value))
    (state : PlanState Value) : PlanState Value :=
  clauses.foldl (fun state clause =>
    (lpOptimizeWhereMultiEqualsAnds catalog clause.rightTableAlias numOuterJoins clause.clause
      state).2) state

/-! ## What a fixed key reads -/

/-- What a key is fixed to is a constant, a list of constants, a column of a parent query, or a
column of a table that has keys, all of them among those before. -/
def KeyFix.ReadsAssigned (parent : Nat → Prop) (before rest : List (SqlKey Value)) :
    KeyFix Value → Prop
  | .comparison _ (.value _ _) => True
  | .comparison _ (.columnAlias table _) =>
    parent table ∨
      (∃ key ∈ before, key.uniqueId = table) ∧ ∀ key ∈ rest, key.uniqueId ≠ table
  | .comparison _ _ => False
  | .inList list => ∀ operand ∈ list, operand.isValue = true
  | .isNull | .isValue _ => True

/-- Every key of the list reads nothing but values that are known when the loops reach it. -/
def ReadsAssigned (parent : Nat → Prop) (keys : List (SqlKey Value)) : Prop :=
  ∀ before key behind, keys = before ++ key :: behind → ∀ fix, key.fix = some fix →
    fix.ReadsAssigned parent before (key :: behind)

/-- The columns of a conjunct belong to tables of the query or of its parent queries. -/
def PlanOperand.Scoped (order : List Nat) (parent : Nat → Prop) : PlanOperand Value → Prop
  | .columnAlias table _ => table ∈ order ∨ parent table
  | _ => True

def Conjunct.Scoped (order : List Nat) (parent : Nat → Prop) : Conjunct Value → Prop
  | .comparison _ left right => left.Scoped order parent ∧ right.Scoped order parent
  | _ => True

def Conjunction.Scoped (order : List Nat) (parent : Nat → Prop) : Conjunction Value → Prop
  | .booleanAnd left right => left.Scoped order parent ∧ right.Scoped order parent
  | .term conjunct => conjunct.Scoped order parent

/-! ## The keys in join order -/

/-- What a key of a table may be fixed to, in terms of the join order. -/
def KeyFix.ReadsBefore (order : List Nat) (parent : Nat → Prop) (uniqueId : Nat) :
    KeyFix Value → Prop
  | .comparison _ (.value _ _) => True
  | .comparison _ (.columnAlias table _) =>
    parent table ∨ table ∈ order ∧ order.idxOf table < order.idxOf uniqueId
  | .comparison _ _ => False
  | .inList list => ∀ operand ∈ list, operand.isValue = true
  | .isNull | .isValue _ => True

/-- The keys are sorted by the join order of their tables, every table has a key, and the fixed keys
read earlier tables. -/
structure InJoinOrder (order : List Nat) (parent : Nat → Prop) (keys : List (SqlKey Value)) :
    Prop where
  sorted : (keys.map SqlKey.uniqueId).Pairwise fun first second =>
    order.idxOf first ≤ order.idxOf second
  tables : ∀ uniqueId, uniqueId ∈ keys.map SqlKey.uniqueId ↔ uniqueId ∈ order
  reads : ∀ key ∈ keys, ∀ fix, key.fix = some fix → fix.ReadsBefore order parent key.uniqueId

section

variable {order : List Nat} {parent : Nat → Prop} {keys : List (SqlKey Value)}

variable {uniqueId : Nat} {fix : KeyFix Value} {state : PlanState Value}
    {reference : ColumnReference}

theorem pairwise_idxOf (distinct : order.Nodup) :
    order.Pairwise fun first second => order.idxOf first ≤ order.idxOf second := by
  refine pairwise_iff_getElem.mpr fun first second firstBelow secondBelow before => ?_
  rw [distinct.idxOf_getElem first firstBelow, distinct.idxOf_getElem second secondBelow]
  exact le_of_lt before

variable {catalog : Catalog} {index left right : Nat} {array : Nat → Nat}

/-- The keys that `join_tables` makes are in join order. -/
theorem joinTables_inJoinOrder (distinct : order.Nodup)
    (keyed : ∀ uniqueId ∈ order, (catalog uniqueId).isCreateTable = true →
      (catalog uniqueId).keyColumns ≠ []) :
    InJoinOrder order parent (joinTables catalog order : PlanState Value).keys := by
  have ownKey {uniqueId : Nat} {key : SqlKey Value}
      (member : key ∈ joinTableKeys catalog uniqueId) :
      key.uniqueId = uniqueId ∧ key.fix = none := by
    unfold joinTableKeys at member
    split at member
    · obtain ⟨column, -, rfl⟩ := mem_map.mp member
      exact ⟨rfl, rfl⟩
    · rw [mem_singleton.mp member]
      exact ⟨rfl, rfl⟩
  refine ⟨pairwise_map.mpr ?_, fun uniqueId => ⟨fun member => ?_, fun inOrder => ?_⟩, ?_⟩
  · refine pairwise_flatMap.mpr ⟨?_, (pairwise_idxOf distinct).imp ?_⟩
    · intro uniqueId _
      refine pairwise_of_forall_mem_list fun first inFirst second inSecond => ?_
      rw [(ownKey inFirst).1, (ownKey inSecond).1]
    · intro left right sorted first inFirst second inSecond
      rw [(ownKey inFirst).1, (ownKey inSecond).1]
      exact sorted
  · obtain ⟨key, inKeys, rfl⟩ := mem_map.mp member
    obtain ⟨uniqueId, inOrder, inTable⟩ := mem_flatMap.mp inKeys
    rw [(ownKey inTable).1]
    exact inOrder
  · obtain ⟨key, inTable⟩ : ∃ key,
      key ∈ (joinTableKeys catalog uniqueId : List (SqlKey Value)) := by
      refine exists_mem_of_ne_nil _ ?_
      unfold joinTableKeys
      split
      · rename_i created
        exact mt map_eq_nil_iff.mp (keyed uniqueId inOrder created)
      · exact cons_ne_nil _ _
    exact mem_map.mpr
      ⟨key, mem_flatMap.mpr ⟨uniqueId, inOrder, inTable⟩, (ownKey inTable).1⟩
  · intro key member fix fixed
    obtain ⟨uniqueId, inOrder, inTable⟩ := mem_flatMap.mp member
    rw [(ownKey inTable).2] at fixed
    cases fixed

section

variable (ordered : InJoinOrder order parent keys)
include ordered

theorem InJoinOrder.present (known : uniqueId ∈ order) : ∃ key ∈ keys, key.uniqueId = uniqueId :=
  mem_map.mp ((ordered.tables uniqueId).mpr known)

/-- In a list in join order, the fixed keys read what is assigned before them. -/
theorem InJoinOrder.readsAssigned : ReadsAssigned parent keys := by
  rintro before key behind rfl fix fixed
  have reads := ordered.reads key (mem_append_right _ mem_cons_self) fix fixed
  cases fix with
  | inList list => exact reads
  | isNull | isValue => trivial
  | comparison operator operand =>
    cases operand with
    | value literal isDateTime => trivial
    | tableAsterisk | derivedColumn | expression => exact reads
    | columnAlias table column =>
      refine reads.imp id fun ⟨known, earlier⟩ => ?_
      have notHere : ∀ other ∈ key :: behind, other.uniqueId ≠ table := by
        rintro other member rfl
        have sorted := pairwise_append.mp (pairwise_map.mp ordered.sorted)
        have behindSorted := (pairwise_cons.mp sorted.2.1).1
        obtain rfl | later := mem_cons.mp member
        · exact lt_irrefl _ earlier
        · exact not_lt.mpr (behindSorted other later) earlier
      obtain ⟨other, member, same⟩ := ordered.present known
      obtain inBefore | inRest := mem_append.mp member
      · exact ⟨⟨other, inBefore, same⟩, notHere⟩
      · exact absurd same (notHere other inRest)

/-! ## The changes of the key list -/

/-- Keys of a table in the place of its keys stay in join order. -/
theorem InJoinOrder.replaceKeys {new : List (SqlKey Value)} (known : uniqueId ∈ order)
    (some : new ≠ []) (own : ∀ key ∈ new, key.uniqueId = uniqueId ∧ key.fix = none) :
    InJoinOrder order parent (replaceKeys uniqueId new keys) := by
  have present := ordered.present known
  obtain ⟨first, entry, firstOwn⟩ := getElem?_firstKeyPosition present
  obtain ⟨before, replaced, after, rfl, same, position, spliced⟩ := exists_replaceKeys_eq present
  obtain ⟨sorted, tables, reads⟩ := ordered
  replace sorted := pairwise_map.mp sorted
  rw [append_assoc] at sorted
  rw [← position, append_assoc, getElem?_append_right (Nat.le_refl _), Nat.sub_self] at entry
  obtain ⟨rest, restEq⟩ := head?_eq_some_iff.mp (head?_eq_getElem?.trans entry)
  obtain ⟨beforeSorted, restSorted, beforeRest⟩ := pairwise_append.mp sorted
  have afterSorted := (pairwise_append.mp restSorted).2.1
  rw [restEq] at restSorted beforeRest
  have afterRest {key : SqlKey Value} (inAfter : key ∈ after) : key ∈ first :: rest := by
    rw [← restEq]
    exact mem_append_right _ inAfter
  have afterFirst : ∀ key ∈ after, order.idxOf uniqueId ≤ order.idxOf key.uniqueId := by
    intro key inAfter
    rw [← firstOwn]
    obtain rfl | later := mem_cons.mp (afterRest inAfter)
    · exact le_refl _
    · exact (pairwise_cons.mp restSorted).1 key later
  have beforeFirst : ∀ key ∈ before, order.idxOf key.uniqueId ≤ order.idxOf uniqueId := by
    intro key inBefore
    rw [← firstOwn]
    exact beforeRest key inBefore first mem_cons_self
  rw [spliced]
  refine ⟨pairwise_map.mpr ?_, fun other => ?_, ?_⟩
  · rw [append_assoc]
    refine pairwise_append.mpr
      ⟨beforeSorted, pairwise_append.mpr ⟨?_, afterSorted, ?_⟩, ?_⟩
    · refine pairwise_of_forall_mem_list fun left inLeft right inRight => ?_
      rw [(own left inLeft).1, (own right inRight).1]
    · intro left inLeft right inRight
      rw [(own left inLeft).1]
      exact afterFirst right inRight
    · intro left inLeft right inRight
      obtain inNew | inAfter := mem_append.mp inRight
      · rw [(own right inNew).1]
        exact beforeFirst left inLeft
      · exact beforeRest left inLeft right (afterRest inAfter)
  · obtain ⟨some, inNew⟩ := exists_mem_of_ne_nil new some
    rw [← tables other]
    simp only [map_append, mem_append, mem_map]
    constructor
    · rintro ((inBefore | ⟨key, member, rfl⟩) | inAfter)
      · exact inl (inl inBefore)
      · rw [(own key member).1]
        simpa only [map_append, mem_append, mem_map] using
          (tables uniqueId).mpr known
      · exact inr inAfter
    · rintro ((inBefore | ⟨key, member, rfl⟩) | inAfter)
      · exact inl (inl inBefore)
      · exact inl (inr ⟨some, inNew, (own some inNew).1.trans (same key member).symm⟩)
      · exact inr inAfter
  · intro key inKeys fix fixed
    simp only [mem_append] at inKeys
    obtain (inBefore | inNew) | inAfter := inKeys
    · exact reads key (by simp [inBefore]) fix fixed
    · rw [(own key inNew).2] at fixed
      cases fixed
    · exact reads key (by simp [inAfter]) fix fixed

/-- A key that is fixed stays where it is. -/
theorem InJoinOrder.set {key : SqlKey Value} (entry : keys[index]? = some key)
    (reads : fix.ReadsBefore order parent key.uniqueId) :
    InJoinOrder order parent (keys.set index { key with fix := some fix }) := by
  obtain ⟨below, rfl⟩ := List.getElem?_eq_some_iff.mp entry
  have sameIds : (keys.set index { keys[index] with fix := some fix }).map SqlKey.uniqueId =
      keys.map SqlKey.uniqueId := by
    have self := @set_getElem_self _ (keys.map SqlKey.uniqueId) index (by simpa using below)
    rw [getElem_map] at self
    rw [map_set]
    exact self
  refine ⟨?_, ?_, ?_⟩
  · rw [sameIds]
    exact ordered.sorted
  · rw [sameIds]
    exact ordered.tables
  · intro other inKeys otherFix fixed
    obtain inOld | rfl := mem_or_eq_of_mem_set inKeys
    · exact ordered.reads other inOld otherFix fixed
    · cases fixed
      exact reads

end

/-! ## The positions of the tables -/

section

variable (keys : List (SqlKey Value)) (uniqueId : Nat)

theorem keyUniqueIdArray_concat (key : SqlKey Value) :
    keyUniqueIdArray (keys ++ [key]) uniqueId =
      if key.uniqueId = uniqueId then keys.length + 1 else keyUniqueIdArray keys uniqueId := by
  rw [keyUniqueIdArray, zipIdx_append, foldl_append, zipIdx_singleton,
    foldl_cons, foldl_nil, keyUniqueIdArray, add_comm keys.length 1]

theorem keyUniqueIdArray_le : keyUniqueIdArray keys uniqueId ≤ keys.length := by
  induction keys using reverseRecOn with
  | nil => exact le_refl 0
  | append_singleton keys key ih =>
    rw [keyUniqueIdArray_concat, length_append]
    split
    · exact le_refl _
    · exact le_succ_of_le ih

/-- A table has no position when it has no key. -/
theorem keyUniqueIdArray_eq_zero_iff :
    keyUniqueIdArray keys uniqueId = 0 ↔ uniqueId ∉ keys.map SqlKey.uniqueId := by
  induction keys using reverseRecOn with
  | nil => exact iff_of_true rfl not_mem_nil
  | append_singleton keys key ih =>
    rw [keyUniqueIdArray_concat, map_append, mem_append, not_or, map_singleton, mem_singleton]
    by_cases same : key.uniqueId = uniqueId
    · rw [if_pos same]
      exact iff_of_false (succ_ne_zero _) fun outside => outside.2 same.symm
    · rw [if_neg same, ih]
      exact ⟨fun outside => ⟨outside, Ne.symm same⟩, And.left⟩

end

/-- The positions follow the order of the tables of a sorted list. -/
theorem keyUniqueIdArray_lt {rank : Nat → Nat}
    (sorted : (keys.map SqlKey.uniqueId).Pairwise fun first second => rank first ≤ rank second)
    (present : right ∈ keys.map SqlKey.uniqueId) (before : rank left < rank right) :
    keyUniqueIdArray keys left < keyUniqueIdArray keys right := by
  induction keys using reverseRecOn with
  | nil => exact absurd present not_mem_nil
  | append_singleton keys key ih =>
    rw [map_append] at sorted present
    obtain ⟨keysSorted, -, last⟩ := pairwise_append.mp sorted
    have notBehind : right ∈ keys.map SqlKey.uniqueId → rank right ≤ rank key.uniqueId :=
      fun member => last right member key.uniqueId (mem_singleton_self _)
    rw [keyUniqueIdArray_concat, keyUniqueIdArray_concat]
    by_cases isRight : key.uniqueId = right
    · have notLeft : key.uniqueId ≠ left := by
        rintro rfl
        rw [isRight] at before
        exact lt_irrefl _ before
      rw [if_neg notLeft, if_pos isRight]
      exact lt_succ_of_le (keyUniqueIdArray_le keys left)
    · have inKeys : right ∈ keys.map SqlKey.uniqueId :=
        (mem_append.mp present).resolve_right fun member =>
          isRight (mem_singleton.mp member).symm
      have notLeft : key.uniqueId ≠ left := by
        rintro rfl
        exact not_lt.mpr (notBehind inKeys) before
      rw [if_neg notLeft, if_neg isRight]
      exact ih keysSorted inKeys

/-- The positions that a clause is optimized with tell the tables of the query from those of its
parents, and the order of the former. They depend on the join order only. -/
structure Positions (order : List Nat) (array : Nat → Nat) : Prop where
  parent : ∀ uniqueId, array uniqueId = 0 ↔ uniqueId ∉ order
  before : ∀ left ∈ order, ∀ right ∈ order,
    order.idxOf left < order.idxOf right → array left < array right

theorem InJoinOrder.positions (ordered : InJoinOrder order parent keys) :
    Positions order (keyUniqueIdArray keys) := by
  refine ⟨fun uniqueId => ?_, fun left _ right inOrder earlier => ?_⟩
  · rw [keyUniqueIdArray_eq_zero_iff, ordered.tables]
  · exact keyUniqueIdArray_lt ordered.sorted ((ordered.tables right).mpr inOrder) earlier

theorem Positions.known (positions : Positions order array)
    (positive : array uniqueId ≠ 0) : uniqueId ∈ order := by
  by_contra outside
  exact positive ((positions.parent uniqueId).mpr outside)

/-- Of two tables of the query, the one that does not stand before the other stands behind it. -/
theorem Positions.after (positions : Positions order array) (leftKnown : left ∈ order)
    (rightKnown : right ∈ order) (different : left ≠ right)
    (notBefore : ¬ array left < array right) : order.idxOf right < order.idxOf left := by
  obtain earlier | same | later := lt_trichotomy (order.idxOf left) (order.idxOf right)
  · exact absurd (positions.before left leftKnown right rightKnown earlier) notBefore
  · exact absurd ((idxOf_inj leftKnown).mp same) different
  · exact later

/-! ## One conjunct -/

/-- What is found for a key to fix is in join order, and the key is of the table. -/
theorem InJoinOrder.keyToFix {column : String}
    {found : PlanState Value} (ordered : InJoinOrder order parent state.keys)
    (known : uniqueId ∈ order)
    (result : keyToFix catalog uniqueId column state = some (index, found)) :
    InJoinOrder order parent found.keys ∧
      ∃ key, found.keys[index]? = some key ∧ key.uniqueId = uniqueId := by
  unfold Octo.Logical.keyToFix at result
  split at result
  · rename_i position looked
    obtain ⟨rfl, rfl⟩ := Prod.mk.inj (Option.some.inj result)
    obtain ⟨key, entry, own, -⟩ := lpGetKey_eq_some looked
    exact ⟨ordered, key, entry, own⟩
  · split at result
    · cases result
    · obtain ⟨rfl, rfl⟩ := Prod.mk.inj (Option.some.inj result)
      refine ⟨ordered.replaceKeys known (cons_ne_nil _ _) fun key member => ?_, _,
        getElem?_replaceKeys (ordered.present known) _ _, rfl⟩
      obtain rfl | inRest := mem_cons.mp member
      · exact ⟨rfl, rfl⟩
      · obtain ⟨keyColumn, -, rfl⟩ := mem_map.mp inRest
        exact ⟨rfl, rfl⟩

variable (context : FixContext)

section

variable (refersToParent : Bool) (conjunct : Conjunct Value)
  (ordered : InJoinOrder order parent state.keys) (known : reference.table ∈ order)
  (reads : fix.ReadsBefore order parent reference.table)
include ordered known reads

theorem fixKey_inJoinOrder :
    InJoinOrder order parent
      (fixKey context reference fix refersToParent conjunct state).2.keys := by
  unfold fixKey
  split
  · exact ordered
  · rename_i index found looked
    obtain ⟨foundOrdered, key, entry, own⟩ := ordered.keyToFix known looked
    rw [entry]
    dsimp only
    have fixedOrdered : InJoinOrder order parent
        (found.keys.set index { key with fix := some fix }) :=
      foundOrdered.set entry (by rw [own]; exact reads)
    split
    · split
      · cases refersToParent <;> exact fixedOrdered
      · exact fixedOrdered
    · exact foundOrdered

theorem fixColumn_inJoinOrder (isNull isRange : Bool) :
    InJoinOrder order parent
      (fixColumn context reference fix isNull isRange refersToParent conjunct state).2.keys := by
  have fixed := fixKey_inJoinOrder context refersToParent conjunct ordered known reads
  unfold fixColumn
  dsimp only
  repeat' split
  all_goals first
    | exact ordered
    | exact fixed

end

theorem eq_value_of_side {operand : PlanOperand Value} (isConstant : operand.side =
    some .constant) :
    ∃ literal isDateTime, operand = .value literal isDateTime := by
  cases operand with
  | value literal isDateTime => exact ⟨literal, isDateTime, rfl⟩
  | _ => cases isConstant

/-- A column in scope can be read when its table, if it is one of the query, stands before. -/
theorem readsBefore_column {operator : Comparison}
    (inScope : reference.table ∈ order ∨ parent reference.table)
    (earlier : reference.table ∈ order → order.idxOf reference.table < order.idxOf uniqueId) :
    (KeyFix.comparison operator (.columnAlias reference.table reference.column) :
      KeyFix Value).ReadsBefore order parent uniqueId := by
  obtain known | isParent := inScope
  · exact inr ⟨known, earlier known⟩
  · exact inl isParent

/-- The side that is fixed is of a table of the query, and the other side is a constant, a column of
a parent query or a column of an earlier table. -/
theorem sideToFix_reads (positions : Positions order array)
    {left right : PlanOperand Value} {leftSide rightSide : FixSide} {swapped : Bool}
    (leftIs : left.side = some leftSide) (rightIs : right.side = some rightSide)
    (leftScoped : left.Scoped order parent) (rightScoped : right.Scoped order parent)
    (chosen : sideToFix array leftSide rightSide = some (reference, swapped))
    (operator : Comparison) :
    reference.table ∈ order ∧
      (KeyFix.comparison operator (if swapped then left else right)).ReadsBefore order parent
        reference.table := by
  obtain ⟨positive, -, behind⟩ := sideToFix_spec chosen
  have known := positions.known positive
  refine ⟨known, ?_⟩
  have reads {operand : PlanOperand Value} {side : FixSide} (isSide : operand.side = some side)
      (inScope : operand.Scoped order parent)
      (different : ∀ other, side = .column other → reference.table ≠ other.table ∧
        (array other.table ≠ 0 → ¬ array reference.table < array other.table)) :
      (KeyFix.comparison operator operand).ReadsBefore order parent reference.table := by
    cases side with
    | constant =>
      obtain ⟨literal, isDateTime, rfl⟩ := eq_value_of_side isSide
      trivial
    | column other =>
      obtain rfl := eq_columnAlias_of_side isSide
      obtain ⟨apart, notBehind⟩ := different other rfl
      refine readsBefore_column inScope fun otherKnown => ?_
      exact positions.after known otherKnown apart
        (notBehind fun zero => (positions.parent _).mp zero otherKnown)
  cases swapped with
  | false => exact reads rightIs rightScoped behind
  | true => exact reads leftIs leftScoped behind

/-- The columns of a clause belong to tables of the query or of its parent queries. -/
def FixClause.Scoped (order : List Nat) (parent : Nat → Prop) (clause : FixClause Value) : Prop :=
  ∀ conjunction, clause.clause = some conjunction → conjunction.Scoped order parent

variable (ordered : InJoinOrder order parent state.keys)
include ordered

/-- One conjunct leaves the keys in join order. -/
theorem optimizeConjunct_inJoinOrder {context : FixContext}
    (positions : Positions order context.array) {conjunct : Conjunct Value}
    (inScope : conjunct.Scoped order parent) :
    InJoinOrder order parent (optimizeConjunct context conjunct state).2.keys := by
  unfold optimizeConjunct
  split
  case h_1 operator left right =>
    split
    case isTrue => exact ordered
    case isFalse =>
      split
      case isTrue => exact ordered
      case isFalse =>
        split
        case h_2 => exact ordered
        case h_1 leftSide rightSide leftIs rightIs =>
          split
          case h_1 => exact ordered
          case h_2 reference swapped chosen =>
            obtain ⟨inOrder, -⟩ :=
              sideToFix_reads positions leftIs rightIs inScope.1 inScope.2 chosen
              operator
            refine fixColumn_inJoinOrder context _ _ ordered inOrder ?_ _ _
            have reads := fun operator =>
              (sideToFix_reads positions leftIs rightIs inScope.1 inScope.2 chosen operator).2
            cases swapped with
            | false => exact reads operator
            | true => exact reads operator.converse
  case h_2 table column list =>
    split
    case isTrue => exact ordered
    case isFalse fixable =>
      simp only [Bool.or_eq_true, not_or, Bool.not_eq_true', Bool.not_eq_false, all_eq_true,
        beq_iff_eq] at fixable
      refine fixColumn_inJoinOrder context _ _ ordered (positions.known fixable.2) ?_ _ _
      exact fixable.1
  case h_3 => split <;> exact ordered
  case h_4 table column right =>
    split
    case isTrue => exact ordered
    case isFalse fixable =>
      simp only [Bool.or_eq_true, not_or, beq_iff_eq] at fixable
      refine fixColumn_inJoinOrder context _ _ ordered (positions.known fixable.1) ?_ _ _
      cases right <;> trivial
  all_goals exact ordered

/-! ## Whole clauses -/

theorem helper_inJoinOrder (positions : Positions order context.array)
    {conjunction : Conjunction Value} (inScope : conjunction.Scoped order parent) :
    InJoinOrder order parent
      (lpOptimizeWhereMultiEqualsAndsHelper context conjunction state).2.keys := by
  induction conjunction generalizing state with
  | term conjunct => exact optimizeConjunct_inJoinOrder ordered positions inScope
  | booleanAnd left right leftIh rightIh => exact rightIh (leftIh ordered inScope.1) inScope.2

theorem lpOptimizeWhereMultiEqualsAnds_inJoinOrder (catalog : Catalog) (numOuterJoins : Nat)
    {clause : FixClause Value} (inScope : clause.Scoped order parent) :
    InJoinOrder order parent
      (lpOptimizeWhereMultiEqualsAnds catalog clause.rightTableAlias numOuterJoins clause.clause
        state).2.keys := by
  cases written : clause.clause with
  | none => exact ordered
  | some conjunction =>
    exact helper_inJoinOrder
      ⟨catalog, keyUniqueIdArray state.keys, clause.rightTableAlias, numOuterJoins⟩ ordered
      ordered.positions (inScope conjunction written)

/-- The clauses of a plan leave the keys in join order. -/
theorem optimizeClauses_inJoinOrder (catalog : Catalog) (numOuterJoins : Nat)
    {clauses : List (FixClause Value)} (inScope : ∀ clause ∈ clauses, clause.Scoped order parent) :
    InJoinOrder order parent (optimizeClauses catalog numOuterJoins clauses state).keys := by
  induction clauses generalizing state with
  | nil => exact ordered
  | cons clause clauses ih =>
    refine ih ?_ (forall_mem_of_forall_mem_cons inScope)
    exact lpOptimizeWhereMultiEqualsAnds_inJoinOrder ordered catalog numOuterJoins
      (inScope clause mem_cons_self)

end

/-- For every join order and every sequence of clauses, each key that is fixed in the end reads a
constant, a list of constants, a column of a parent query, or a column of a table all of whose keys
stand before it. -/
theorem optimizeClauses_joinTables_readsAssigned (catalog : Catalog) {order : List Nat}
    (distinct : order.Nodup) (keyed : ∀ uniqueId ∈ order, (catalog uniqueId).isCreateTable = true →
      (catalog uniqueId).keyColumns ≠ [])
    {parent : Nat → Prop} (numOuterJoins : Nat) {clauses : List (FixClause Value)}
    (inScope : ∀ clause ∈ clauses, clause.Scoped order parent) :
    ReadsAssigned parent
      (optimizeClauses catalog numOuterJoins clauses (joinTables catalog order)).keys :=
  (optimizeClauses_inJoinOrder (joinTables_inJoinOrder distinct keyed) catalog numOuterJoins
    inScope).readsAssigned

/-- Tables with the key column `id`. -/
def idCatalog : Catalog := fun _ => ⟨true, true, fun _ => ⟨false, false, false, false⟩, ["id"]⟩

/-- `FROM t1, t2 WHERE t1.id = t2.ref AND t1.id = t9.id`, where `t9` is a table of a parent
query. -/
def refClause : FixClause Nat :=
  ⟨none, some (.booleanAnd
    (.term (.comparison .equals (.columnAlias 1 "id") (.columnAlias 2 "ref")))
    (.term (.comparison .equals (.columnAlias 1 "id") (.columnAlias 9 "id"))))⟩

theorem refClause_readsAssigned :
    (optimizeClauses idCatalog 0 [refClause] (joinTables idCatalog [1, 2])).keys =
        [⟨1, some "id", some (.comparison .equals (.columnAlias 9 "id")), false, false⟩,
          ⟨2, some "ref", some (.comparison .equals (.columnAlias 1 "id")), false, true⟩,
          ⟨2, some "id", none, true, false⟩] ∧
      ReadsAssigned (· = 9)
        (optimizeClauses idCatalog 0 [refClause] (joinTables idCatalog [1, 2])).keys := by
  refine ⟨rfl, optimizeClauses_joinTables_readsAssigned idCatalog (by decide) ?_ 0 ?_⟩
  · exact fun _ _ _ => cons_ne_nil _ _
  · intro clause member conjunction written
    rw [mem_singleton.mp member] at written
    cases written
    simp [Conjunction.Scoped, Conjunct.Scoped, PlanOperand.Scoped]

end Octo.Logical
