import Octo.Schema.Catalog

/-!
# The query of a view

A view is stored with the tables, views and functions that its query refers to.
`qualify_view_dependency` finds them in the parse tree, after `parse_tree_optimize` has moved parts
of WHERE clauses into the ON conditions of joins. It goes through the tables of a join but not
through its condition.

A parse tree is a `SqlStatement`. As in the program, lists are statements too: each cell has a
statement for what follows, and `null` ends the list. What no modelled function reads is left out,
such as the operators of expressions besides AND.
-/
namespace Octo.Schema

open List

/-- The names of tables, views and functions, and the hashes of functions. -/
abbrev Name := {name : Subscript // name ≠ ⊥}

/-- `SqlJoinType`. -/
inductive SqlJoinType where
  | noJoin
  | crossJoin
  | innerJoin
  | rightJoin
  | leftJoin
  | fullJoin
  | naturalJoin
deriving DecidableEq

/-- `IS_OUTER_JOIN`. -/
def SqlJoinType.isOuter : SqlJoinType → Bool
  | .rightJoin | .leftJoin | .fullJoin => true
  | _ => false

/-- The parse trees of queries. -/
inductive SqlStatement where
  | null
  | createTable (tableName : Name)
  | createView (viewName : Name)
  | functionCall (functionHash : Name) (parameters : SqlStatement)
  | setOperation (first second : SqlStatement)
  | tableAlias (table : SqlStatement)
  | tableValue (rowValue : SqlStatement)
  | rowValue (valueList next : SqlStatement)
  | literal
  | columnAlias (uniqueId : Nat)
  | calculated (value : SqlStatement)
  | coerceType (target : SqlStatement)
  | booleanAnd (first second : SqlStatement)
  | binary (first second : SqlStatement)
  | unary (operand : SqlStatement)
  | array (argument : SqlStatement)
  | coalesce (arguments : SqlStatement)
  | greatest (arguments : SqlStatement)
  | least (arguments : SqlStatement)
  | nullIf (left right : SqlStatement)
  | aggregateFunction (parameter : SqlStatement)
  | cas (value branches optionalElse : SqlStatement)
  | casBranch (condition value next : SqlStatement)
  | columnList (value next : SqlStatement)
  | columnListAlias (columnList next : SqlStatement)
  | select (selectList tableList whereExpression groupByExpression havingExpression
      orderByExpression : SqlStatement)
  | join (type : SqlJoinType) (maxUniqueId : Nat) (value condition next : SqlStatement)
deriving DecidableEq

namespace SqlStatement

/-! ## Moving parts of a WHERE clause -/

/-- The type of the first join of a list. -/
def joinType? : SqlStatement → Option SqlJoinType
  | join type _ _ _ _ => some type
  | _ => none

/-- Whether a join of one of some types is in a list. -/
def anyJoin (wanted : SqlJoinType → Bool) : SqlStatement → Bool
  | join type _ _ _ next => wanted type || anyJoin wanted next
  | _ => false

/-- The joins with a condition added to `noted_join`, if there is one. -/
def addToNotedJoin (maxUniqueId : Nat) (stmt : SqlStatement) : SqlStatement → Option SqlStatement
  | join type joinMaxUniqueId value condition next =>
    -- The last join is left alone, and cross joins have no condition.
    if !type.isOuter && type != .crossJoin && next.joinType?.any (· != .crossJoin) &&
        decide (maxUniqueId ≤ joinMaxUniqueId) then
      let extended := if condition = null then stmt else booleanAnd condition stmt
      some (join type joinMaxUniqueId value extended next)
    else (addToNotedJoin maxUniqueId stmt next).map (join type joinMaxUniqueId value condition ·)
  | _ => none

variable (maxUniqueId : SqlStatement → Nat)

/-- `move_where_clause_to_on_clause`: what is left of a part of the WHERE clause, and the joins.
`maxUniqueId` gives the last table that a part refers to. -/
def moveWhereClauseToOnClause (stmt startJoin : SqlStatement) : SqlStatement × SqlStatement :=
  match addToNotedJoin (maxUniqueId stmt) stmt startJoin with
  | none => (stmt, startJoin)
  | some joins =>
    if startJoin.anyJoin (fun type => type == .rightJoin || type == .fullJoin) then
      (stmt, startJoin)
    else (if startJoin.anyJoin SqlJoinType.isOuter then stmt else null, joins)

/-- `traverse_where_clause`. -/
def traverseWhereClause : SqlStatement → SqlStatement → SqlStatement × SqlStatement
  | booleanAnd first second, startJoin =>
    let movedFirst := traverseWhereClause first startJoin
    let movedSecond := traverseWhereClause second movedFirst.2
    let left :=
      if movedFirst.1 = null then movedSecond.1
      else if movedSecond.1 = null then movedFirst.1
      else booleanAnd movedFirst.1 movedSecond.1
    (left, movedSecond.2)
  | stmt, startJoin => moveWhereClauseToOnClause maxUniqueId stmt startJoin

/-- `parse_tree_optimize` for all SELECTs of a tree, the inner ones first. -/
def parseTreeOptimize : SqlStatement → SqlStatement
  | null => null
  | createTable tableName => createTable tableName
  | createView viewName => createView viewName
  | functionCall functionHash parameters =>
    functionCall functionHash (parseTreeOptimize parameters)
  | setOperation first second => setOperation (parseTreeOptimize first) (parseTreeOptimize second)
  | tableAlias table => tableAlias (parseTreeOptimize table)
  | tableValue rows => tableValue (parseTreeOptimize rows)
  | rowValue valueList next => rowValue (parseTreeOptimize valueList) (parseTreeOptimize next)
  | literal => literal
  | columnAlias uniqueId => columnAlias uniqueId
  | calculated value => calculated (parseTreeOptimize value)
  | coerceType target => coerceType (parseTreeOptimize target)
  | booleanAnd first second => booleanAnd (parseTreeOptimize first) (parseTreeOptimize second)
  | binary first second => binary (parseTreeOptimize first) (parseTreeOptimize second)
  | unary operand => unary (parseTreeOptimize operand)
  | array argument => array (parseTreeOptimize argument)
  | coalesce arguments => coalesce (parseTreeOptimize arguments)
  | greatest arguments => greatest (parseTreeOptimize arguments)
  | least arguments => least (parseTreeOptimize arguments)
  | nullIf left right => nullIf (parseTreeOptimize left) (parseTreeOptimize right)
  | aggregateFunction parameter => aggregateFunction (parseTreeOptimize parameter)
  | cas value branches optionalElse =>
    cas (parseTreeOptimize value) (parseTreeOptimize branches) (parseTreeOptimize optionalElse)
  | casBranch condition value next =>
    casBranch (parseTreeOptimize condition) (parseTreeOptimize value) (parseTreeOptimize next)
  | columnList value next => columnList (parseTreeOptimize value) (parseTreeOptimize next)
  | columnListAlias list next =>
    columnListAlias (parseTreeOptimize list) (parseTreeOptimize next)
  | join type joinMaxUniqueId value condition next =>
    join type joinMaxUniqueId (parseTreeOptimize value) (parseTreeOptimize condition)
      (parseTreeOptimize next)
  | select selectList tableList whereExpression groupBy having orderBy =>
    let joins := parseTreeOptimize tableList
    let condition := parseTreeOptimize whereExpression
    let moved :=
      if condition = null then (condition, joins)
      else traverseWhereClause maxUniqueId condition joins
    select (parseTreeOptimize selectList) moved.2 moved.1 (parseTreeOptimize groupBy)
      (parseTreeOptimize having) (parseTreeOptimize orderBy)

end SqlStatement

/-! ## What a query refers to -/

/-- What a view can depend on. -/
inductive DependencyKind where
  | table
  | view
  | function
deriving DecidableEq

/-- A table, view or function that a query refers to. The name of a function is its hash. -/
structure Dependency where
  kind : DependencyKind
  name : Name
deriving DecidableEq

namespace SqlStatement

/-- `qualify_view_dependency`: what it records, in its order. -/
def qualifyViewDependency : SqlStatement → List Dependency
  | null | literal | columnAlias _ => []
  | createTable tableName => [⟨.table, tableName⟩]
  | createView viewName => [⟨.view, viewName⟩]
  | functionCall functionHash parameters =>
    ⟨.function, functionHash⟩ :: qualifyViewDependency parameters
  | setOperation first second | booleanAnd first second | binary first second
  | nullIf first second | rowValue first second | columnList first second
  | columnListAlias first second => qualifyViewDependency first ++ qualifyViewDependency second
  | tableAlias child | tableValue child | calculated child | coerceType child | unary child
  | array child | coalesce child | greatest child | least child | aggregateFunction child =>
    qualifyViewDependency child
  | cas first second third | casBranch first second third =>
    qualifyViewDependency first ++ qualifyViewDependency second ++ qualifyViewDependency third
  | select selectList tableList whereExpression groupBy having orderBy =>
    qualifyViewDependency selectList ++ qualifyViewDependency tableList ++
      qualifyViewDependency whereExpression ++ qualifyViewDependency groupBy ++
      qualifyViewDependency having ++ qualifyViewDependency orderBy
  -- The condition of a join is not visited.
  | join _ _ value _ next => qualifyViewDependency value ++ qualifyViewDependency next

/-- Everything that a query refers to, wherever it stands. -/
def occurrences : SqlStatement → List Dependency
  | null | literal | columnAlias _ => []
  | createTable tableName => [⟨.table, tableName⟩]
  | createView viewName => [⟨.view, viewName⟩]
  | functionCall functionHash parameters => ⟨.function, functionHash⟩ :: occurrences parameters
  | setOperation first second | booleanAnd first second | binary first second
  | nullIf first second | rowValue first second | columnList first second
  | columnListAlias first second => occurrences first ++ occurrences second
  | tableAlias child | tableValue child | calculated child | coerceType child | unary child
  | array child | coalesce child | greatest child | least child | aggregateFunction child =>
    occurrences child
  | cas first second third | casBranch first second third =>
    occurrences first ++ occurrences second ++ occurrences third
  | select selectList tableList whereExpression groupBy having orderBy =>
    occurrences selectList ++ occurrences tableList ++ occurrences whereExpression ++
      occurrences groupBy ++ occurrences having ++ occurrences orderBy
  | join _ _ value condition next => occurrences value ++ occurrences condition ++ occurrences next

/-- What the conditions of joins refer to. -/
def onConditions : SqlStatement → List Dependency
  | null | literal | columnAlias _ | createTable _ | createView _ => []
  | functionCall _ child | tableAlias child | tableValue child | calculated child
  | coerceType child | unary child | array child | coalesce child | greatest child | least child
  | aggregateFunction child => onConditions child
  | setOperation first second | booleanAnd first second | binary first second
  | nullIf first second | rowValue first second | columnList first second
  | columnListAlias first second => onConditions first ++ onConditions second
  | cas first second third | casBranch first second third =>
    onConditions first ++ onConditions second ++ onConditions third
  | select selectList tableList whereExpression groupBy having orderBy =>
    onConditions selectList ++ onConditions tableList ++ onConditions whereExpression ++
      onConditions groupBy ++ onConditions having ++ onConditions orderBy
  | join _ _ value condition next =>
    onConditions value ++ occurrences condition ++ onConditions next

/-- What a query refers to outside of the conditions of joins. -/
def elsewhere : SqlStatement → List Dependency
  | null | literal | columnAlias _ => []
  | createTable tableName => [⟨.table, tableName⟩]
  | createView viewName => [⟨.view, viewName⟩]
  | functionCall functionHash parameters => ⟨.function, functionHash⟩ :: elsewhere parameters
  | tableAlias child | tableValue child | calculated child | coerceType child | unary child
  | array child | coalesce child | greatest child | least child | aggregateFunction child =>
    elsewhere child
  | join _ _ first _ second
  | setOperation first second | booleanAnd first second | binary first second
  | nullIf first second | rowValue first second | columnList first second
  | columnListAlias first second => elsewhere first ++ elsewhere second
  | cas first second third | casBranch first second third =>
    elsewhere first ++ elsewhere second ++ elsewhere third
  | select selectList tableList whereExpression groupBy having orderBy =>
    elsewhere selectList ++ elsewhere tableList ++ elsewhere whereExpression ++
      elsewhere groupBy ++ elsewhere having ++ elsewhere orderBy

theorem qualifyViewDependency_eq_elsewhere (stmt : SqlStatement) :
    qualifyViewDependency stmt = elsewhere stmt := by
  induction stmt <;> simp [qualifyViewDependency, elsewhere, *]

variable {dependency : Dependency}

/-- A query refers to what is recorded and to what the conditions of joins refer to. -/
theorem mem_occurrences_iff (stmt : SqlStatement) :
    dependency ∈ occurrences stmt ↔
      dependency ∈ qualifyViewDependency stmt ∨ dependency ∈ onConditions stmt := by
  -- A node refers to what its children refer to, apart from its own name.
  induction stmt <;>
    simp [occurrences, qualifyViewDependency, onConditions, *, or_assoc, or_left_comm]

/-! ## Moving keeps what a query refers to -/

theorem mem_occurrences_addToNotedJoin (dependency : Dependency) {maxUniqueId : Nat}
    {stmt startJoin joins : SqlStatement}
    (added : addToNotedJoin maxUniqueId stmt startJoin = some joins) :
    dependency ∈ occurrences joins ↔
      dependency ∈ occurrences stmt ∨ dependency ∈ occurrences startJoin := by
  induction startJoin generalizing joins with
  | join type joinMaxUniqueId value condition next _ _ nextIh =>
    rw [addToNotedJoin] at added
    split at added
    case isTrue =>
      obtain rfl := Option.some.inj added
      by_cases noCondition : condition = null
      · simp only [noCondition, if_true, occurrences, mem_append, not_mem_nil, or_false,
          or_assoc, or_left_comm]
      · simp only [noCondition, if_false, occurrences, mem_append, or_assoc, or_left_comm]
    case isFalse =>
      obtain ⟨rest, addedToRest, rfl⟩ := Option.map_eq_some_iff.mp added
      simp only [occurrences, mem_append, nextIh addedToRest, or_left_comm]
  | _ => cases added

theorem mem_occurrences_moveWhereClauseToOnClause (dependency : Dependency)
    (maxUniqueId : SqlStatement → Nat) (stmt startJoin : SqlStatement) :
    let moved := moveWhereClauseToOnClause maxUniqueId stmt startJoin
    dependency ∈ occurrences moved.1 ∨ dependency ∈ occurrences moved.2 ↔
      dependency ∈ occurrences stmt ∨ dependency ∈ occurrences startJoin := by
  unfold moveWhereClauseToOnClause
  cases added : addToNotedJoin (maxUniqueId stmt) stmt startJoin with
  | none => exact Iff.rfl
  | some joins =>
    have inJoins := mem_occurrences_addToNotedJoin dependency added
    dsimp only
    split
    case isTrue => exact Iff.rfl
    case isFalse =>
      by_cases outer : startJoin.anyJoin SqlJoinType.isOuter = true
      · rw [if_pos outer, inJoins, ← or_assoc, or_self]
      · rw [if_neg outer, inJoins]
        simp [occurrences]

theorem mem_occurrences_traverseWhereClause (dependency : Dependency)
    (maxUniqueId : SqlStatement → Nat) (stmt startJoin : SqlStatement) :
    let moved := traverseWhereClause maxUniqueId stmt startJoin
    dependency ∈ occurrences moved.1 ∨ dependency ∈ occurrences moved.2 ↔
      dependency ∈ occurrences stmt ∨ dependency ∈ occurrences startJoin := by
  fun_induction traverseWhereClause maxUniqueId stmt startJoin with
  | case1 startJoin first second movedFirst movedSecond left firstIh secondIh =>
    have inLeft : dependency ∈ occurrences left ↔
        dependency ∈ occurrences movedFirst.1 ∨ dependency ∈ occurrences movedSecond.1 := by
      by_cases noFirst : movedFirst.1 = null
      · simp [left, noFirst, occurrences]
      · by_cases noSecond : movedSecond.1 = null <;>
          simp [left, noFirst, noSecond, occurrences]
    dsimp only at firstIh secondIh ⊢
    rw [inLeft, or_assoc, secondIh, or_left_comm, firstIh]
    simp only [occurrences, mem_append, or_assoc, or_left_comm]
  | case2 => exact mem_occurrences_moveWhereClauseToOnClause ..

/-- The optimizer neither loses nor adds anything that a query refers to. -/
theorem mem_occurrences_parseTreeOptimize (maxUniqueId : SqlStatement → Nat) (stmt : SqlStatement) :
    dependency ∈ occurrences (parseTreeOptimize maxUniqueId stmt) ↔
      dependency ∈ occurrences stmt := by
  induction stmt with
  | select selectList tableList whereExpression groupBy having orderBy listIh tablesIh whereIh
      groupByIh havingIh orderByIh =>
      have moved := mem_occurrences_traverseWhereClause dependency maxUniqueId
        (parseTreeOptimize maxUniqueId whereExpression) (parseTreeOptimize maxUniqueId tableList)
      dsimp only at moved
      rw [whereIh, tablesIh] at moved
      simp only [parseTreeOptimize, occurrences, mem_append, listIh, groupByIh, havingIh, orderByIh]
      by_cases noWhere : parseTreeOptimize maxUniqueId whereExpression = null
      · simp only [noWhere, if_true, tablesIh]
        rw [noWhere] at whereIh
        rw [whereIh]
      · simp only [noWhere, if_false]
        rw [or_comm] at moved
        rw [or_assoc (a := dependency ∈ occurrences selectList), moved,
          or_comm (a := dependency ∈ occurrences whereExpression), ← or_assoc]
  -- Only SELECT moves anything.
  | _ => simp [parseTreeOptimize, occurrences, *]

end SqlStatement

end Octo.Schema
