/-!
# References to derived tables

When a query has a sub-query, a view or VALUES in its FROM list,
`lp_replace_derived_table_references` turns the column aliases that refer to it into derived
columns: the output key of the sub-query and the number of a piece. The source updates the plan in
place and looks at no return value where there can only be a query; a query is a type of its own
here.
-/
namespace Octo.Logical

/-- What is read of an `SqlColumnAlias`. The address is the node itself. -/
structure SqlColumnAlias where
  address : Nat
  /-- The `unique_id` of its table alias. -/
  uniqueId : Nat
  /-- `is_stmt_table_asterisk` of its column. -/
  isTableAsterisk : Bool
  /-- The `column_number`, for a column of VALUES. -/
  columnNumber : Nat

/-- What is read of an `SqlTableAlias`. -/
structure SqlTableAlias where
  uniqueId : Nat
  /-- The table is a `table_value_STATEMENT`. -/
  isTableValue : Bool
  /-- The `outer_query_column_alias` of every column in `column_list`. -/
  columnList : List (Option Nat)

/-- `LP_COLUMN_ALIAS` and `LP_DERIVED_COLUMN`, the latter with its key and its piece number. -/
inductive PlanReference (Key : Type) where
  | columnAlias (column : SqlColumnAlias)
  | derivedColumn (key : Key) (pieceNumber : Option Nat) (column : SqlColumnAlias)

mutual

/-- An expression in a plan. All types whose operands are replaced and nothing else are operators,
`LP_FUNCTION_CALL` and `LP_ARRAY` among them. -/
inductive PlanNode (Key Tag : Type) where
  | null
  | value (literal : Tag)
  | columnListAlias (name : String)
  | reference (reference : PlanReference Key)
  | lpWhere (condition second : PlanNode Key Tag)
  | operator (type : Tag) (first second : PlanNode Key Tag)
  | query (query : PlanQuery Key Tag)

/-- `LP_SELECT_QUERY` with its clauses, `LP_SET_OPERATION` and `LP_TABLE_VALUE`. -/
inductive PlanQuery (Key Tag : Type) where
  | selectQuery (whereClause project orderBy : PlanNode Key Tag) (tableJoin : PlanJoins Key Tag)
      (groupBy havingClause : PlanNode Key Tag)
  | setOperation (first second : PlanQuery Key Tag)
  | tableValue (tableData : PlanNode Key Tag)

/-- The list of `LP_TABLE_JOIN`, each with the operand of its ON condition. -/
inductive PlanJoins (Key Tag : Type) where
  | nil
  /-- A join with an `LP_TABLE` or an `LP_VIEW`, which the source does not look into. -/
  | table (name : String) (on : PlanNode Key Tag) (next : PlanJoins Key Tag)
  | query (query : PlanQuery Key Tag) (on : PlanNode Key Tag) (next : PlanJoins Key Tag)

end

/-- `get_column_piece_number`. -/
def getColumnPieceNumber (column : SqlColumnAlias) (table : SqlTableAlias) : Nat :=
  if table.isTableValue then column.columnNumber
  else table.columnList.findIdx (· = some column.address) + 1

variable {Key Tag : Type} (table : SqlTableAlias) (key : Key)

/-- The case `LP_COLUMN_ALIAS` of `lp_replace_helper`. -/
def PlanReference.replace : PlanReference Key → PlanReference Key
  | columnAlias column =>
    if column.uniqueId = table.uniqueId then
      derivedColumn key
        (if column.isTableAsterisk then none else some (getColumnPieceNumber column table)) column
    else columnAlias column
  | derivedColumn other pieceNumber column => derivedColumn other pieceNumber column

mutual

/-- `lp_replace_helper`. -/
@[simp] def PlanNode.lpReplaceHelper : PlanNode Key Tag → PlanNode Key Tag
  | .null => .null
  | .value literal => .value literal
  -- The second operand of `LP_WHERE`, for which the source does not call the function.
  | .columnListAlias name => .columnListAlias name
  | .reference reference => .reference (reference.replace table key)
  | .lpWhere condition second => .lpWhere condition.lpReplaceHelper second.lpReplaceHelper
  | .operator type first second => .operator type first.lpReplaceHelper second.lpReplaceHelper
  | .query query => .query query.lpReplaceDerivedTableReferences

/-- `lp_replace_derived_table_references`, and what `lp_replace_helper` does for other queries. -/
@[simp] def PlanQuery.lpReplaceDerivedTableReferences : PlanQuery Key Tag → PlanQuery Key Tag
  | .selectQuery whereClause project orderBy tableJoin groupBy havingClause =>
    .selectQuery whereClause.lpReplaceHelper project.lpReplaceHelper orderBy.lpReplaceHelper
      tableJoin.lpReplaceJoins groupBy.lpReplaceHelper havingClause.lpReplaceHelper
  | .setOperation first second =>
    .setOperation first.lpReplaceDerivedTableReferences second.lpReplaceDerivedTableReferences
  | .tableValue tableData => .tableValue tableData.lpReplaceHelper

/-- The loop over the join list. -/
@[simp] def PlanJoins.lpReplaceJoins : PlanJoins Key Tag → PlanJoins Key Tag
  | .nil => .nil
  | .table name on next => .table name on.lpReplaceHelper next.lpReplaceJoins
  | .query query on next =>
    .query query.lpReplaceDerivedTableReferences on.lpReplaceHelper next.lpReplaceJoins

end

/-! ## What is replaced -/

mutual

/-- The references of an expression, from left to right. -/
@[simp] def PlanNode.references : PlanNode Key Tag → List (PlanReference Key)
  | .null | .value _ | .columnListAlias _ => []
  | .reference reference => [reference]
  | .lpWhere first second | .operator _ first second => first.references ++ second.references
  | .query query => query.references

/-- The references in all clauses of a query. -/
@[simp] def PlanQuery.references : PlanQuery Key Tag → List (PlanReference Key)
  | .selectQuery whereClause project orderBy tableJoin groupBy havingClause =>
    whereClause.references ++ project.references ++ orderBy.references ++ tableJoin.references ++
      groupBy.references ++ havingClause.references
  | .setOperation first second => first.references ++ second.references
  | .tableValue tableData => tableData.references

@[simp] def PlanJoins.references : PlanJoins Key Tag → List (PlanReference Key)
  | .nil => []
  | .table _ on next => on.references ++ next.references
  | .query query on next => query.references ++ on.references ++ next.references

end

variable (hole : PlanReference Key)

mutual

/-- An expression with the same reference in every place that has one. -/
@[simp] def PlanNode.shape : PlanNode Key Tag → PlanNode Key Tag
  | .null => .null
  | .value literal => .value literal
  | .columnListAlias name => .columnListAlias name
  | .reference _ => .reference hole
  | .lpWhere condition second => .lpWhere condition.shape second.shape
  | .operator type first second => .operator type first.shape second.shape
  | .query query => .query query.shape

@[simp] def PlanQuery.shape : PlanQuery Key Tag → PlanQuery Key Tag
  | .selectQuery whereClause project orderBy tableJoin groupBy havingClause =>
    .selectQuery whereClause.shape project.shape orderBy.shape tableJoin.shape groupBy.shape
      havingClause.shape
  | .setOperation first second => .setOperation first.shape second.shape
  | .tableValue tableData => .tableValue tableData.shape

@[simp] def PlanJoins.shape : PlanJoins Key Tag → PlanJoins Key Tag
  | .nil => .nil
  | .table name on next => .table name on.shape next.shape
  | .query query on next => .query query.shape on.shape next.shape

end

mutual

/-- The references are replaced one by one, and nothing else changes. -/
theorem PlanNode.lpReplaceHelper_spec (node : PlanNode Key Tag) :
    (node.lpReplaceHelper table key).references = node.references.map (·.replace table key) ∧
      (node.lpReplaceHelper table key).shape hole = node.shape hole := by
  cases node with
  | null | value | columnListAlias | reference => simp
  | lpWhere first second | operator _ first second =>
    simp [first.lpReplaceHelper_spec, second.lpReplaceHelper_spec]
  | query query => simp [query.lpReplaceDerivedTableReferences_spec]

theorem PlanQuery.lpReplaceDerivedTableReferences_spec (query : PlanQuery Key Tag) :
    (query.lpReplaceDerivedTableReferences table key).references =
        query.references.map (·.replace table key) ∧
      (query.lpReplaceDerivedTableReferences table key).shape hole = query.shape hole := by
  cases query with
  | selectQuery whereClause project orderBy tableJoin groupBy havingClause =>
    simp [whereClause.lpReplaceHelper_spec, project.lpReplaceHelper_spec,
      orderBy.lpReplaceHelper_spec, tableJoin.lpReplaceJoins_spec, groupBy.lpReplaceHelper_spec,
      havingClause.lpReplaceHelper_spec]
  | setOperation first second =>
    simp [first.lpReplaceDerivedTableReferences_spec, second.lpReplaceDerivedTableReferences_spec]
  | tableValue tableData => simp [tableData.lpReplaceHelper_spec]

theorem PlanJoins.lpReplaceJoins_spec (joins : PlanJoins Key Tag) :
    (joins.lpReplaceJoins table key).references = joins.references.map (·.replace table key) ∧
      (joins.lpReplaceJoins table key).shape hole = joins.shape hole := by
  cases joins with
  | nil => simp
  | table name on next => simp [on.lpReplaceHelper_spec, next.lpReplaceJoins_spec]
  | query query on next =>
    simp [query.lpReplaceDerivedTableReferences_spec, on.lpReplaceHelper_spec,
      next.lpReplaceJoins_spec]

end

/-- The piece of a column: in VALUES it has the number of the column, otherwise the column of the
sub-query at this place is the one that the alias stands for. -/
def SqlTableAlias.IsPieceOf (table : SqlTableAlias) (column : SqlColumnAlias) (piece : Nat) :
    Prop :=
  if table.isTableValue then piece = column.columnNumber
  else some column.address ∈ table.columnList →
    0 < piece ∧ table.columnList[piece - 1]? = some (some column.address)

theorem isPieceOf_getColumnPieceNumber (column : SqlColumnAlias) :
    table.IsPieceOf column (getColumnPieceNumber column table) := by
  unfold SqlTableAlias.IsPieceOf getColumnPieceNumber
  split
  · rfl
  · intro listed
    have found : table.columnList.findIdx (· = some column.address) < table.columnList.length :=
      List.findIdx_lt_length_of_exists ⟨_, listed, by simp⟩
    refine ⟨Nat.succ_pos _, ?_⟩
    rw [Nat.add_sub_cancel, List.getElem?_eq_getElem found]
    simpa using List.findIdx_getElem (w := found)

/-- After the replacement no column alias of the derived table is left anywhere in the query. Every
reference to it is a derived column with the key and the piece of its column, and everything else
is as it was. -/
theorem lpReplaceDerivedTableReferences_correct (query : PlanQuery Key Tag) :
    let after := query.lpReplaceDerivedTableReferences table key
    (∀ column, .columnAlias column ∈ after.references → column.uniqueId ≠ table.uniqueId) ∧
    (∀ (index : Nat) column, query.references[index]? = some (.columnAlias column) →
      column.uniqueId = table.uniqueId → ∃ pieceNumber,
        after.references[index]? = some (.derivedColumn key pieceNumber column) ∧
        (pieceNumber = none ↔ column.isTableAsterisk) ∧
        ∀ piece ∈ pieceNumber, table.IsPieceOf column piece) ∧
    (∀ (index : Nat) reference, query.references[index]? = some reference →
      (∀ column, reference = .columnAlias column → column.uniqueId ≠ table.uniqueId) →
        after.references[index]? = some reference) ∧
    after.shape hole = query.shape hole := by
  obtain ⟨same, shape⟩ := query.lpReplaceDerivedTableReferences_spec table key hole
  refine ⟨fun column member => ?_, fun index column found refers => ?_, ?_, shape⟩
  · rw [same] at member
    obtain ⟨before, -, replaced⟩ := List.mem_map.mp member
    cases before with
    | derivedColumn => cases replaced
    | columnAlias other =>
      rw [PlanReference.replace] at replaced
      split at replaced
      · cases replaced
      · cases replaced
        assumption
  · refine ⟨if column.isTableAsterisk then none else some (getColumnPieceNumber column table),
      by simp [same, found, PlanReference.replace, refers], by simp, fun piece isPiece => ?_⟩
    split at isPiece
    · cases isPiece
    · cases isPiece
      exact isPieceOf_getColumnPieceNumber table column
  · intro index reference found other
    cases reference with
    | derivedColumn => simp [same, found, PlanReference.replace]
    | columnAlias column => simp [same, found, PlanReference.replace, other column rfl]

end Octo.Logical
