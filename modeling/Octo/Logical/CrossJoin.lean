import Octo.Foundation.Placement
import Octo.Logical.KeyFixing
import Octo.Physical.TableJoin

/-!
# Reordering cross joins

`lp_optimize_cross_join` works on the join list of a query. It moves the nodes of all CROSS JOINs in
front of the first NATURAL JOIN and stops at any other join. Then it sorts the tables of those
nodes: the tables that the WHERE clause compares with a constant come first, then those that are
compared with a table that was sorted already. The nodes stay where they are and the tables are
swapped between them, so a join type and an ON condition belong to a place in the list.
-/
namespace Octo.Logical

open Octo.Physical List

variable {Value : Type}

/-! ## The join list -/

/-- An ON condition: its node and the tables whose columns it refers to. -/
structure OnCondition where
  address : Nat
  tables : List Nat
deriving DecidableEq, Repr

/-- `LP_TABLE_JOIN`. The table is given by its `unique_id`. -/
structure TableJoin where
  joinType : JoinType
  onCondition : Option OnCondition
  table : Nat
deriving DecidableEq, Repr

/-- The node of a CROSS JOIN. -/
def TableJoin.isCross (node : TableJoin) : Bool :=
  node.joinType == .crossJoin

/-- `IS_CROSS_JOIN_COMPATIBLE`. -/
def TableJoin.isCompatible (node : TableJoin) : Bool :=
  node.joinType.isCrossJoinCompatible

/-- The ON condition of a node does not refer to the table of another one. -/
def TableJoin.OnIgnores (node other : TableJoin) : Prop :=
  ∀ condition ∈ node.onCondition, other.table ∉ condition.tables

instance (node other : TableJoin) : Decidable (node.OnIgnores other) :=
  inferInstanceAs (Decidable (∀ condition ∈ node.onCondition, other.table ∉ condition.tables))

/-- A join list. Its tables are distinct and known to the query. CROSS JOINs have no ON condition,
and an ON condition refers to no table behind its own. The first table can have an ON condition: a
part of the WHERE clause that was moved there. -/
structure JoinList where
  first : TableJoin
  rest : List TableJoin
  /-- `config->plan_id`. -/
  maxUniqueId : Nat
  first_noJoin : first.joinType = .noJoin
  distinct : ((first :: rest).map TableJoin.table).Nodup
  known : ∀ node ∈ first :: rest, 0 < node.table ∧ node.table < maxUniqueId
  cross_on : ∀ node ∈ rest, node.isCross = true → node.onCondition = none
  on_before : (first :: rest).Pairwise TableJoin.OnIgnores

/-- The nodes of the list. -/
def JoinList.nodes (list : JoinList) : List TableJoin :=
  list.first :: list.rest

/-! ## Moving the CROSS JOINs -/

/-- The first loop: the nodes up to the last of the leading CROSS JOINs and what follows them, or
the list as it is when another join than a NATURAL JOIN follows. -/
def leadingCrossJoins : List TableJoin → List TableJoin →
    Except (List TableJoin) (List TableJoin × List TableJoin)
  | front, [] => .ok (front, [])
  | front, next :: rest =>
    if !next.isCompatible then .error (front ++ next :: rest)
    else if !next.isCross then .ok (front, next :: rest)
    else leadingCrossJoins (front ++ [next]) rest

/-- The second loop: `front` ends with `left`, `middle` goes from `next_left` to `right`, and `rest`
starts with `next_right`. A CROSS JOIN is moved between `left` and `next_left`. Another join than a
NATURAL JOIN ends the function with the list as it is then. -/
def moveCrossJoins : List TableJoin → List TableJoin → List TableJoin →
    Except (List TableJoin) (List TableJoin × List TableJoin)
  | front, middle, [] => .ok (front, middle)
  | front, middle, next :: rest =>
    if !next.isCompatible then .error (front ++ middle ++ next :: rest)
    else if next.isCross then moveCrossJoins (front ++ [next]) middle rest
    else moveCrossJoins front (middle ++ [next]) rest

/-- The second loop after the first one. -/
def moveBehindLeading : List TableJoin × List TableJoin →
    Except (List TableJoin) (List TableJoin × List TableJoin)
  | (front, []) => .ok (front, [])
  | (front, startRight :: behind) => moveCrossJoins front [startRight] behind

/-- Both loops: the first table with all CROSS JOINs, and the other joins. -/
def gatherCrossJoins (first : TableJoin) (rest : List TableJoin) :
    Except (List TableJoin) (List TableJoin × List TableJoin) :=
  leadingCrossJoins [first] rest >>= moveBehindLeading

/-! ## The comparisons of the WHERE clause -/

/-- The id that an operand has in `equals_id1_id2`: 0 for a value. -/
def PlanOperand.equalsId (operand : PlanOperand Value) : Option Nat :=
  operand.side.map fun side =>
    match side with
    | .constant => 0
    | .column reference => reference.table

/-- The two ids of a term that the source marks as compared. -/
def Conjunct.equalsIds (catalog : Catalog) : Conjunct Value → Option (Nat × Nat)
  | .comparison operator left right =>
    if operator = .notEquals then none
    else if operator.isRange && doNotOptimizeRange catalog left right then none
    else do some (← left.equalsId, ← right.equalsId)
  | .inList (.columnAlias table _) list =>
    if list.all PlanOperand.isValue then some (table, 0) else none
  | .isValue left _ => do some (← left.equalsId, 0)
  | .isNotValue left none => do some (← left.equalsId, 0)
  | .inList _ _ | .isNotValue _ (some _) | .other _ => none

/-- `equals_id1_id2`. -/
abbrev EqualsIds := Nat → Nat → Bool

/-- Marks two ids as compared, in both directions. -/
def EqualsIds.mark (equals : EqualsIds) (leftId rightId : Nat) : EqualsIds := fun first second =>
  (first == leftId && second == rightId) || (first == rightId && second == leftId) ||
    equals first second

/-- `lp_optimize_where_multi_equals_ands_helper` when it is called to fill in `equals_id1_id2`: what
it leaves of the clause, and the array. -/
def fillEquals (catalog : Catalog) :
    Conjunction Value → EqualsIds → Option (Conjunction Value) × EqualsIds
  | .booleanAnd left right, equals =>
    let (newLeft, leftEquals) := fillEquals catalog left equals
    let (newRight, rightEquals) := fillEquals catalog right leftEquals
    (conjoin newLeft newRight, rightEquals)
  | .term conjunct, equals =>
    match conjunct.equalsIds catalog with
    | none => (some (.term conjunct), equals)
    | some (leftId, rightId) => (some (.term conjunct), equals.mark leftId rightId)

/-- The same for a WHERE clause, which can be empty. -/
def fillWhereEquals (catalog : Catalog) (clause : Option (Conjunction Value)) :
    Option (Conjunction Value) × EqualsIds :=
  match clause with
  | none => (none, fun _ _ => false)
  | some conjunction => fillEquals catalog conjunction fun _ _ => false

/-! ## Sorting the tables -/

/-- `table_join_array`: the place of each table in front. -/
def tableJoinArray (front : List TableJoin) : Nat → Option Nat :=
  front.zipIdx.foldl (fun array entry => Function.update array entry.1.table (some entry.2))
    fun _ => none

/-- The ids that are not in `sorted_array` yet. -/
def unsorted (maxUniqueId : Nat) (sorted : List Nat) : List Nat :=
  (List.range maxUniqueId).filter fun id => !sorted.contains id

/-- The ids that one iteration adds to `sorted_array`. -/
def comparedIds (maxUniqueId : Nat) (array : Nat → Option Nat) (equals : EqualsIds)
    (sorted : List Nat) (id : Nat) : List Nat :=
  (unsorted maxUniqueId sorted).filter fun other => (array other).isSome && equals id other

/-- Every id that is added is not there to be added any more. -/
theorem length_unsorted_append_compared (maxUniqueId : Nat) (array : Nat → Option Nat)
    (equals : EqualsIds) (sorted : List Nat) (id : Nat) :
    (unsorted maxUniqueId (sorted ++ comparedIds maxUniqueId array equals sorted id)).length +
        (comparedIds maxUniqueId array equals sorted id).length =
      (unsorted maxUniqueId sorted).length := by
  have rest : unsorted maxUniqueId (sorted ++ comparedIds maxUniqueId array equals sorted id) =
      (unsorted maxUniqueId sorted).filter fun other =>
        !((array other).isSome && equals id other) := by
    rw [unsorted, unsorted, filter_filter]
    apply filter_congr
    intro other member
    have known := mem_range.mp member
    by_cases seen : other ∈ sorted <;> simp [comparedIds, unsorted, seen, known]
  rw [rest, Nat.add_comm]
  exact (length_eq_length_filter_add _).symm

/-- The loop that fills `sorted_array`, with the entries that it has not looked at yet. -/
def sortIds (maxUniqueId : Nat) (array : Nat → Option Nat) (equals : EqualsIds)
    (sorted : List Nat) : List Nat → List Nat
  | [] => sorted
  | id :: pending =>
    sortIds maxUniqueId array equals
      (sorted ++ comparedIds maxUniqueId array equals sorted id)
      (pending ++ comparedIds maxUniqueId array equals sorted id)
termination_by pending => (unsorted maxUniqueId sorted).length + pending.length
decreasing_by
  have := length_unsorted_append_compared maxUniqueId array equals sorted id
  rw [List.length_append, List.length_cons]
  omega

/-- `sorted_array` behind its first entry, which is 0 and stands for the constants. -/
def sortedIds (maxUniqueId : Nat) (array : Nat → Option Nat) (equals : EqualsIds) : List Nat :=
  sortIds maxUniqueId array equals [] [0]

/-- `sorted_array`. -/
def sortedArray (maxUniqueId : Nat) (array : Nat → Option Nat) (equals : EqualsIds) : List Nat :=
  0 :: sortedIds maxUniqueId array equals

/-! ## Swapping the tables -/

/-- The tables of two nodes are swapped. -/
def swapTables (nodes : List TableJoin) (first second : Nat) : List TableJoin :=
  match nodes[first]?, nodes[second]? with
  | some left, some right =>
    (nodes.set first { left with table := right.table }).set second
      { right with table := left.table }
  | _, _ => nodes

/-- The loop that fixes the nodes in front to be in the order of `sorted_array`. There is no result
where the source follows a null pointer or comes to `start_right`, which it asserts not to do. -/
def fixOrder : List Nat → Nat → (Nat → Option Nat) → List TableJoin → Option (List TableJoin)
  | [], _, _, nodes => some nodes
  | id :: sorted, cur, array, nodes => do
      let right ← array id
      let node ← nodes[cur]?
      if cur = right then
        fixOrder sorted (cur + 1) array nodes
      else
        fixOrder sorted (cur + 1) (Function.update array node.table (some right))
          (swapTables nodes cur right)

/-- `lp_optimize_cross_join`: the join list and the WHERE clause afterwards. -/
def lpOptimizeCrossJoin (catalog : Catalog) (list : JoinList)
    (clause : Option (Conjunction Value)) :
    Option (List TableJoin × Option (Conjunction Value)) :=
  match gatherCrossJoins list.first list.rest with
  | .error nodes => some (nodes, clause)
  | .ok (front, others) =>
    let numCrossJoins := front.length - 1
    if numCrossJoins = 0 then some (front ++ others, clause)
    else do
      let array := tableJoinArray front
      let (newClause, equals) := fillWhereEquals catalog clause
      let nodes ← fixOrder (sortedIds list.maxUniqueId array equals) 0 array front
      some (nodes ++ others, newClause)

end Octo.Logical
