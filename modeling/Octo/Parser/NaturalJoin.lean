import Octo.Physical.TableJoin

/-!
# The condition of a NATURAL JOIN

`qualify_query` goes through the join list of a query from left to right. For a NATURAL JOIN it
calls `natural_join_condition`, which looks up the name of every column on the left side in the
right table, flags the column that it finds there as a duplicate and equates the two. A column that
an earlier NATURAL JOIN flagged is passed over, so a name that a chain of natural joins has in
common is always looked up through the first table that has it.

The column aliases of a correlation specification are copied only after that, so a NATURAL JOIN sees
its own right table under the old names and the tables before it under the new ones.
-/
namespace Octo.Parser

open Octo.Physical List Except

/-- `SqlColumnListAlias` in the column list of a table. The address is the node itself; the last
field is the node that `duplicate_of_column` points to. -/
structure ColumnListAlias where
  address : Nat
  aliasName : String
  duplicateOf : Option Nat
deriving DecidableEq, Repr

/-- `SqlTableAlias`: the alias of the table, its column list, and the column aliases of its
`correlation_specification`, an empty list if it has none. -/
structure TableAlias where
  aliasName : String
  columns : List ColumnListAlias
  columnAliases : List String
deriving DecidableEq, Repr

/-- The ON condition that is built for a NATURAL JOIN, over qualified column names. -/
inductive NaturalCondition where
  | equals (left right : String)
  | and (first second : NaturalCondition)
deriving DecidableEq, Repr

/-- The last argument of `ERR_COMMON_COLUMN`. -/
inductive CommonColumnSide where
  | left
  | right
deriving DecidableEq, Repr

/-- The errors of the loop over the join list, with their arguments: `ERR_COMMON_COLUMN` and
`ERR_AS_MORE_COLUMNS`. -/
inductive JoinListError where
  | commonColumn (name : String) (side : CommonColumnSide)
  | asMoreColumns (table : String) (columns aliases : Nat)
deriving DecidableEq, Repr

/-- What `natural_join_condition` changes: the flags in the right table and the condition. -/
structure NaturalJoinState where
  columns : List ColumnListAlias
  condition : Option NaturalCondition
deriving DecidableEq, Repr

/-- `match_column_in_table`: the first column of the name and whether there is another one. -/
def matchColumnInTable (columns : List ColumnListAlias) (name : String) :
    Option (ColumnListAlias × Bool) :=
  match columns.filter (·.aliasName = name) with
  | [] => none
  | column :: others => some (column, !others.isEmpty)

/-- A write to `duplicate_of_column` of the node at an address. -/
def setDuplicateOf (columns : List ColumnListAlias) (address primary : Nat) :
    List ColumnListAlias :=
  columns.map fun column =>
    if column.address = address then { column with duplicateOf := some primary } else column

/-- Adds one equality to the condition that was built so far. -/
def conjoin : Option NaturalCondition → NaturalCondition → NaturalCondition
  | none, equality => equality
  | some condition, equality => .and condition equality

/-- The equality of the columns of one name of a left table and of the right table. -/
def equality (rightTable leftTable name : String) : NaturalCondition :=
  .equals (leftTable ++ "." ++ name) (rightTable ++ "." ++ name)

/-- The body of the two loops of `natural_join_condition`, for one column of one left table. -/
def equateColumn (rightTable : String) (state : NaturalJoinState)
    (left : String × ColumnListAlias) : Except JoinListError NaturalJoinState :=
  if left.2.duplicateOf.isSome then .ok state
  else match matchColumnInTable state.columns left.2.aliasName with
    | none => .ok state
    | some (column, ambiguous) =>
      if column.duplicateOf.isSome then .error (.commonColumn left.2.aliasName .left)
      else if ambiguous then .error (.commonColumn left.2.aliasName .right)
      else .ok
        { columns := setDuplicateOf state.columns column.address left.2.address
          condition := some (conjoin state.condition
            (equality rightTable left.1 left.2.aliasName)) }

/-- The columns of the left tables, with the alias of their table, as the two loops meet them. -/
def sideColumns (tables : List TableAlias) : List (String × ColumnListAlias) :=
  tables.flatMap fun table => table.columns.map (table.aliasName, ·)

/-- `natural_join_condition`. -/
def naturalJoinCondition (tables : List TableAlias) (right : TableAlias) :
    Except JoinListError NaturalJoinState :=
  (sideColumns tables).foldlM (equateColumn right.aliasName) ⟨right.columns, none⟩

/-- The first columns get the column aliases, in their order. -/
def renameColumns : List String → List ColumnListAlias → List ColumnListAlias
  | name :: names, column :: columns =>
    { column with aliasName := name } :: renameColumns names columns
  | _, columns => columns

/-- A table under the names of its correlation specification. -/
def TableAlias.renamed (table : TableAlias) : TableAlias :=
  { table with columns := renameColumns table.columnAliases table.columns }

/-- `copy_correlation_specification_aliases`. -/
def copyCorrelationSpecificationAliases (table : TableAlias) : Except JoinListError TableAlias :=
  if table.columns.length < table.columnAliases.length then
    .error (.asMoreColumns table.aliasName table.columns.length table.columnAliases.length)
  else .ok table.renamed

/-- One join of the list in `qualify_query`: a NATURAL JOIN leaves flags in its table, and then the
table gets the names of its correlation specification. -/
def qualifyJoin (tables : List TableAlias) (join : JoinType × TableAlias) :
    Except JoinListError (List TableAlias) := do
  let right ← if join.1 = .naturalJoin then
      (naturalJoinCondition tables join.2).map ({ join.2 with columns := ·.columns })
    else .ok join.2
  (copyCorrelationSpecificationAliases right).map (tables ++ [·])

/-- The loop of `qualify_query` over the join list, which starts with a table of its own. -/
def qualifyJoins (first : TableAlias) (joins : List (JoinType × TableAlias)) :
    Except JoinListError (List TableAlias) :=
  ((.noJoin, first) :: joins).foldlM qualifyJoin []

/-! ## One right table -/

/-- The left columns that are looked up: those that no earlier NATURAL JOIN flagged. -/
def visible (lefts : List (String × ColumnListAlias)) : List (String × ColumnListAlias) :=
  lefts.filter (·.2.duplicateOf = none)

/-- The names of the columns of a table. -/
def TableAlias.names (table : TableAlias) : List String :=
  table.columns.map (·.aliasName)

/-- The names of the visible columns. -/
def visibleNames (lefts : List (String × ColumnListAlias)) : List String :=
  (visible lefts).map (·.2.aliasName)

/-- The visible columns whose name the right table has: the alias of their table and the name. -/
def commonColumns (lefts : List (String × ColumnListAlias)) (right : TableAlias) :
    List (String × String) :=
  ((visible lefts).map fun left => (left.1, left.2.aliasName)).filter (·.2 ∈ right.names)

/-- The flag that a NATURAL JOIN leaves in a column of the right table. -/
def flag (lefts : List (String × ColumnListAlias)) (column : ColumnListAlias) : ColumnListAlias :=
  match (visible lefts).find? (·.2.aliasName = column.aliasName) with
  | some left => { column with duplicateOf := some left.2.address }
  | none => column

/-- The condition that equates columns, given by the alias of their table and their name. -/
def conjunction (rightTable : String) (columns : List (String × String)) :
    Option NaturalCondition :=
  columns.foldl (fun condition column =>
    some (conjoin condition (equality rightTable column.1 column.2))) none

/-- What the loops leave behind after some left columns, none of them with an ambiguous name. -/
def stateAfter (lefts : List (String × ColumnListAlias)) (right : TableAlias) : NaturalJoinState :=
  ⟨right.columns.map (flag lefts), conjunction right.aliasName (commonColumns lefts right)⟩

/-- A name that both sides have is there once on each of them. -/
def Unambiguous (left right : List String) : Prop :=
  ∀ name ∈ left, name ∈ right → left.count name < 2 ∧ right.count name < 2

/-- A table before the join list is qualified: distinct columns without flags. -/
structure TableAlias.Fresh (table : TableAlias) : Prop where
  distinct : (table.columns.map (·.address)).Nodup
  free : ∀ column ∈ table.columns, column.duplicateOf = none

variable {lefts : List (String × ColumnListAlias)} {left : String × ColumnListAlias}
  {right : TableAlias} {column : ColumnListAlias} {name : String}

/-- One more left name is ambiguous if it is common and stands on the left already, or twice on the
right. -/
theorem unambiguous_concat {leftNames rightNames : List String} :
    Unambiguous (leftNames ++ [name]) rightNames ↔
      Unambiguous leftNames rightNames ∧
        (name ∈ rightNames → name ∉ leftNames ∧ rightNames.count name < 2) := by
  simp only [Unambiguous, count_append, mem_append, mem_singleton]
  constructor
  · refine fun clear => ⟨fun other member there => ?_, fun there => ?_⟩
    · have bounds := clear other (.inl member) there
      omega
    · obtain ⟨few, once⟩ := clear name (.inr rfl) there
      rw [count_singleton_self] at few
      exact ⟨count_eq_zero.mp (by omega), once⟩
  · rintro ⟨clear, last⟩ other member there
    by_cases same : other = name
    · subst same
      rw [count_eq_zero.mpr (last there).1, count_singleton_self]
      exact ⟨Nat.lt_succ_self 1, (last there).2⟩
    · rw [count_singleton, if_neg (by simpa using Ne.symm same)]
      exact clear other (member.resolve_right same) there

theorem visible_concat (lefts : List (String × ColumnListAlias)) (left : String × ColumnListAlias) :
    visible (lefts ++ [left]) =
      visible lefts ++ if left.2.duplicateOf = none then [left] else [] := by
  rw [visible, filter_append, filter_singleton]
  simp [visible]

@[simp] theorem aliasName_flag : (flag lefts column).aliasName = column.aliasName := by
  unfold flag
  split <;> rfl

@[simp] theorem address_flag : (flag lefts column).address = column.address := by
  unfold flag
  split <;> rfl

theorem find?_visible_eq_none (apart : name ∉ visibleNames lefts) :
    (visible lefts).find? (·.2.aliasName = name) = none := by
  refine find?_eq_none.mpr fun left member same => apart ?_
  exact mem_map.mpr ⟨left, member, by simpa using same⟩

theorem flag_eq_self (apart : column.aliasName ∉ visibleNames lefts) :
    flag lefts column = column := by
  rw [flag, find?_visible_eq_none apart]

theorem isSome_duplicateOf_flag (seen : column.aliasName ∈ visibleNames lefts) :
    (flag lefts column).duplicateOf.isSome := by
  obtain ⟨left, member, same⟩ := mem_map.mp seen
  cases found : (visible lefts).find? (·.2.aliasName = column.aliasName) with
  | none => exact absurd (by simpa using same) (find?_eq_none.mp found left member)
  | some other => simp [flag, found]

/-- The lookup in the right table finds a column with the flag that it has by now. -/
theorem filter_map_flag :
    (right.columns.map (flag lefts)).filter (·.aliasName = name) =
      (right.columns.filter (·.aliasName = name)).map (flag lefts) := by
  rw [filter_map]
  refine congrArg _ (filter_congr fun column _ => ?_)
  simp

theorem mem_of_filter_eq_cons {others : List ColumnListAlias}
    (found : right.columns.filter (·.aliasName = name) = column :: others) :
    column ∈ right.columns ∧ column.aliasName = name := by
  have first : column ∈ right.columns.filter (·.aliasName = name) := by
    rw [found]
    exact mem_cons_self
  simpa using first

/-- The write to the only column of a name leaves the flags for one more left column. -/
theorem setDuplicateOf_map_flag (fresh : right.Fresh) (free : left.2.duplicateOf = none)
    (only : right.columns.filter (·.aliasName = left.2.aliasName) = [column])
    (new : left.2.aliasName ∉ visibleNames lefts) :
    setDuplicateOf (right.columns.map (flag lefts)) column.address left.2.address =
      right.columns.map (flag (lefts ++ [left])) := by
  have here := mem_of_filter_eq_cons only
  rw [setDuplicateOf, map_map]
  refine map_congr_left fun other member => ?_
  by_cases named : other.aliasName = left.2.aliasName
  · have same : other ∈ right.columns.filter (·.aliasName = left.2.aliasName) := by
      simp [member, named]
    rw [only, mem_singleton] at same
    subst same
    simp [flag, visible_concat, free, named, find?_visible_eq_none new]
  · have differs : other.address ≠ column.address := by
      intro same
      exact named (inj_on_of_nodup_map fresh.distinct member here.1 same ▸ here.2)
    rw [Function.comp_apply, address_flag, if_neg differs]
    simp [flag, visible_concat, free, Ne.symm named]

/-- A left column that is flagged, or whose name the right table does not have, is passed over. -/
theorem stateAfter_concat_of_passedOver
    (pass : left.2.duplicateOf ≠ none ∨ left.2.aliasName ∉ right.names) :
    stateAfter (lefts ++ [left]) right = stateAfter lefts right ∧
      equateColumn right.aliasName (stateAfter lefts right) left =
        .ok (stateAfter lefts right) := by
  by_cases free : left.2.duplicateOf = none
  · have missing := pass.resolve_left (not_not.mpr free)
    have flags : right.columns.map (flag (lefts ++ [left])) = right.columns.map (flag lefts) := by
      refine map_congr_left fun column member => ?_
      have differs : left.2.aliasName ≠ column.aliasName := fun same =>
        missing (mem_map.mpr ⟨column, member, same.symm⟩)
      simp [flag, visible_concat, free, differs]
    have nowhere : right.columns.filter (·.aliasName = left.2.aliasName) = [] :=
      filter_eq_nil_iff.mpr fun column member same =>
        missing (mem_map.mpr ⟨column, member, by simpa using same⟩)
    refine ⟨?_, ?_⟩
    · simp [stateAfter, flags, commonColumns, visible_concat, free, missing]
    · simp [equateColumn, matchColumnInTable, stateAfter, filter_map_flag, nowhere]
  · have same : visible (lefts ++ [left]) = visible lefts := by simp [visible_concat, free]
    refine ⟨?_, by rw [equateColumn, if_pos (Option.isSome_iff_ne_none.mpr free)]⟩
    simp only [stateAfter, commonColumns, same, NaturalJoinState.mk.injEq, and_true]
    exact map_congr_left fun column _ => by rw [flag, flag, same]

/-- One more left column: either no name is ambiguous with it, and it is passed over or equated, or
the loops end with an error. -/
theorem equateColumn_stateAfter (fresh : right.Fresh)
    (clear : Unambiguous (visibleNames lefts) right.names) :
    (Unambiguous (visibleNames (lefts ++ [left])) right.names ∧
      equateColumn right.aliasName (stateAfter lefts right) left =
        .ok (stateAfter (lefts ++ [left]) right)) ∨
    (¬Unambiguous (visibleNames (lefts ++ [left])) right.names ∧
      ∃ error, equateColumn right.aliasName (stateAfter lefts right) left = .error error) := by
  by_cases pass : left.2.duplicateOf ≠ none ∨ left.2.aliasName ∉ right.names
  · obtain ⟨same, step⟩ := @stateAfter_concat_of_passedOver lefts _ _ pass
    refine .inl ⟨?_, step.trans (by rw [same])⟩
    rw [visibleNames, visible_concat]
    split_ifs with free
    · rw [map_append]
      exact unambiguous_concat.mpr
        ⟨clear, fun there => absurd there (pass.resolve_left (not_not.mpr free))⟩
    · rwa [append_nil]
  · obtain ⟨free, there⟩ := not_or.mp pass
    rw [not_not] at free there
    have names : visibleNames (lefts ++ [left]) = visibleNames lefts ++ [left.2.aliasName] := by
      simp [visibleNames, visible_concat, free]
    obtain ⟨some_, member, named⟩ := mem_map.mp there
    have count : right.names.count left.2.aliasName =
        (right.columns.filter (·.aliasName = left.2.aliasName)).length := by
      rw [TableAlias.names, count_eq_countP, countP_map, countP_eq_length_filter]
      rfl
    rw [names, unambiguous_concat, count, equateColumn,
      if_neg (by simp [free] : ¬left.2.duplicateOf.isSome), matchColumnInTable, stateAfter,
      filter_map_flag]
    cases columns : right.columns.filter (·.aliasName = left.2.aliasName) with
    | nil => exact absurd (by simpa using named) (filter_eq_nil_iff.mp columns some_ member)
    | cons column others =>
      have inside := mem_of_filter_eq_cons columns
      simp only [map_cons]
      by_cases seen : left.2.aliasName ∈ visibleNames lefts
      · refine .inr ⟨fun all => (all.2 there).1 seen, _, if_pos ?_⟩
        exact isSome_duplicateOf_flag (inside.2 ▸ seen)
      · rw [if_neg (by simp [flag_eq_self (inside.2.symm ▸ seen), fresh.free column inside.1])]
        cases others with
        | nil =>
          refine .inl ⟨⟨clear, fun _ => ⟨seen, Nat.lt_succ_self 1⟩⟩, ?_⟩
          rw [address_flag, setDuplicateOf_map_flag fresh free columns seen]
          simp [stateAfter, commonColumns, visible_concat, free, there, conjunction]
        | cons other others =>
          refine .inr ⟨fun all => ?_, _, if_pos (by simp)⟩
          have few := (all.2 there).2
          simp only [length_cons] at few
          omega

/-- The loops come to their end when no name is ambiguous, and only then. -/
theorem foldlM_equateColumn (fresh : right.Fresh) (lefts : List (String × ColumnListAlias)) :
    (Unambiguous (visibleNames lefts) right.names ∧
      lefts.foldlM (equateColumn right.aliasName) ⟨right.columns, none⟩ =
        .ok (stateAfter lefts right)) ∨
    (¬Unambiguous (visibleNames lefts) right.names ∧
      ∃ error, lefts.foldlM (equateColumn right.aliasName) ⟨right.columns, none⟩ =
        .error error) := by
  induction lefts using reverseRecOn with
  | nil =>
    refine .inl ⟨fun name member => absurd member not_mem_nil, ?_⟩
    have same : right.columns.map (flag []) = right.columns :=
      (map_congr_left fun column _ => rfl).trans (map_id _)
    rw [stateAfter, same]
    rfl
  | append_singleton lefts left ih =>
    rw [foldlM_append]
    rcases ih with ⟨clear, run⟩ | ⟨unclear, error, run⟩
    · have last : (ok (stateAfter lefts right) >>= fun state =>
          [left].foldlM (equateColumn right.aliasName) state) =
            equateColumn right.aliasName (stateAfter lefts right) left := by
        change [left].foldlM (equateColumn right.aliasName) (stateAfter lefts right) = _
        simp
      rw [run, last]
      exact equateColumn_stateAfter fresh clear
    · refine .inr ⟨fun all => unclear ?_, error, by rw [run]; rfl⟩
      rw [visibleNames, visible_concat] at all
      split_ifs at all with free
      · rw [map_append] at all
        exact (unambiguous_concat.mp all).1
      · rwa [append_nil] at all

/-! ## Renames -/

variable {tables : List TableAlias} {table : TableAlias}

/-- The columns of a table, each before and after the rename. -/
def TableAlias.renames (table : TableAlias) : List (ColumnListAlias × ColumnListAlias) :=
  table.columns.zip table.renamed.columns

/-- A rename that keeps the common names of a NATURAL JOIN apart from the others: a column has a
name of the left side after it if it had one before, and the common names are the same. -/
structure TableAlias.KeepsCommon (names : List String) (table : TableAlias) : Prop where
  columns : ∀ pair ∈ table.renames, pair.1.aliasName ∈ names ↔ pair.2.aliasName ∈ names
  common : ∀ name ∈ names, name ∈ table.names ↔ name ∈ table.renamed.names

instance (names : List String) (table : TableAlias) : Decidable (table.KeepsCommon names) :=
  decidable_of_iff (_ ∧ _) ⟨fun both => ⟨both.1, both.2⟩, fun keeps => ⟨keeps.1, keeps.2⟩⟩

/-- The right tables of all NATURAL JOINs of a list, behind tables of some names, have such a
rename. -/
def KeepCommon : List String → List (JoinType × TableAlias) → Prop
  | _, [] => True
  | names, join :: joins =>
    (join.1 = .naturalJoin → join.2.KeepsCommon names) ∧
      KeepCommon (names ++ join.2.renamed.names) joins

/-- A table with the flags of a NATURAL JOIN. -/
def TableAlias.flagged (lefts : List (String × ColumnListAlias)) (table : TableAlias) :
    TableAlias :=
  { table with columns := table.columns.map (flag lefts) }

@[simp] theorem length_renameColumns {names : List String} {columns : List ColumnListAlias} :
    (renameColumns names columns).length = columns.length := by
  fun_induction renameColumns names columns <;> simp [*]

theorem map_fst_renames : table.renames.map Prod.fst = table.columns :=
  map_fst_zip (by simp [TableAlias.renamed])

theorem map_snd_renames : table.renames.map Prod.snd = table.renamed.columns :=
  map_snd_zip (by simp [TableAlias.renamed])

theorem fst_mem_of_mem_renames {pair : ColumnListAlias × ColumnListAlias}
    (member : pair ∈ table.renames) : pair.1 ∈ table.columns := by
  rw [← map_fst_renames]
  exact mem_map_of_mem member

/-- A rename changes nothing but the name. -/
theorem eq_of_mem_renames {pair : ColumnListAlias × ColumnListAlias}
    (member : pair ∈ table.renames) : pair.2 = { pair.1 with aliasName := pair.2.aliasName } := by
  rw [TableAlias.renames, TableAlias.renamed] at member
  generalize table.columnAliases = names, table.columns = columns at member
  fun_induction renameColumns names columns with
  | case1 name names column columns ih =>
    rcases mem_cons.mp member with rfl | later
    · rfl
    · exact ih later
  | case2 names columns =>
    obtain ⟨index, bound, rfl⟩ := mem_iff_getElem.mp member
    simp

@[simp] theorem flag_eta : { column with duplicateOf := (flag lefts column).duplicateOf } =
    flag lefts column := by
  unfold flag
  split <;> rfl

/-- The flags are set by the old names and stay with their columns. -/
theorem columns_renamed_flagged : (table.flagged lefts).renamed.columns =
    table.renames.map fun pair =>
      { pair.2 with duplicateOf := (flag lefts pair.1).duplicateOf } := by
  rw [TableAlias.renames, TableAlias.renamed, TableAlias.renamed, TableAlias.flagged]
  generalize table.columnAliases = names, table.columns = columns
  induction columns generalizing names with
  | nil => cases names <;> rfl
  | cons column columns ih =>
    cases names with
    | nil =>
      simp only [renameColumns, map_cons, zip_cons_cons, cons.injEq]
      exact ⟨flag_eta.symm, by simpa [renameColumns] using ih []⟩
    | cons name names => simpa [renameColumns] using ih names

@[simp] theorem names_renamed_flagged :
    (table.flagged lefts).renamed.names = table.renamed.names := by
  rw [TableAlias.names, TableAlias.names, columns_renamed_flagged, map_map, ← map_snd_renames,
    map_map]
  rfl

theorem map_address_renamed :
    table.renamed.columns.map (·.address) = table.columns.map (·.address) := by
  rw [← map_snd_renames, map_map, ← map_fst_renames, map_map]
  refine map_congr_left fun pair member => ?_
  rw [Function.comp_apply, eq_of_mem_renames member]
  rfl

/-- The rename changes neither addresses nor flags. -/
theorem TableAlias.Fresh.renamed (fresh : table.Fresh) : table.renamed.Fresh := by
  constructor
  · rw [map_address_renamed]
    exact fresh.distinct
  · intro column member
    rw [← map_snd_renames] at member
    obtain ⟨pair, there, rfl⟩ := mem_map.mp member
    rw [eq_of_mem_renames there]
    exact fresh.free pair.1 (fst_mem_of_mem_renames there)

/-! ## Chains of joins -/

/-- The names of the visible columns of the left side. -/
def leftNames (tables : List TableAlias) : List String :=
  visibleNames (sideColumns tables)

/-- Every flagged column has the name of a visible column of an earlier table. -/
inductive Merged : List TableAlias → Prop
  | nil : Merged []
  | concat {tables : List TableAlias} {table : TableAlias} (merged : Merged tables)
      (flags : ∀ column ∈ table.columns, column.duplicateOf ≠ none →
        column.aliasName ∈ leftNames tables) :
      Merged (tables ++ [table])

theorem mem_visible : left ∈ visible lefts ↔ left ∈ lefts ∧ left.2.duplicateOf = none := by
  simp [visible]

theorem mem_sideColumns : left ∈ sideColumns tables ↔
    ∃ table ∈ tables, left.1 = table.aliasName ∧ left.2 ∈ table.columns := by
  simp only [sideColumns, mem_flatMap, mem_map]
  constructor
  · rintro ⟨table, member, column, there, rfl⟩
    exact ⟨table, member, rfl, there⟩
  · rintro ⟨table, member, same, there⟩
    exact ⟨table, member, left.2, there, by rw [← same]⟩

/-- The first table that has a name has a visible column of that name. -/
theorem Merged.first_visible (merged : Merged tables)
    (named : ∃ table ∈ tables, name ∈ table.names) :
    ∃ table, tables.find? (name ∈ ·.names) = some table ∧
      ∃ column ∈ table.columns, column.aliasName = name ∧ column.duplicateOf = none := by
  induction merged with
  | nil => simp at named
  | @concat tables table _ flags ih =>
    by_cases earlier : ∃ table ∈ tables, name ∈ table.names
    · obtain ⟨first, found, visible⟩ := ih earlier
      exact ⟨first, by rw [find?_append, found, Option.some_or], visible⟩
    · have missing : tables.find? (name ∈ ·.names) = none :=
        find?_eq_none.mpr fun other member here =>
          earlier ⟨other, member, by simpa using here⟩
      have here : name ∈ table.names := by
        obtain ⟨other, member, has⟩ := named
        rcases mem_append.mp member with before | last
        · exact absurd ⟨other, before, has⟩ earlier
        · rwa [mem_singleton.mp last] at has
      obtain ⟨column, member, same⟩ := mem_map.mp here
      refine ⟨table, by simp [missing, here], column, member, same, ?_⟩
      cases flag : column.duplicateOf with
      | none => rfl
      | some primary =>
        -- a flagged column has an earlier column of its name
        obtain ⟨left, seen, again⟩ := mem_map.mp (flags column member (by simp [flag]))
        obtain ⟨other, before, -, there⟩ := mem_sideColumns.mp (mem_visible.mp seen).1
        exact absurd ⟨other, before, mem_map.mpr ⟨left.2, there, again.trans same⟩⟩
          earlier

theorem Merged.mem_leftNames_iff (merged : Merged tables) :
    name ∈ leftNames tables ↔ ∃ table ∈ tables, name ∈ table.names := by
  constructor
  · intro member
    obtain ⟨left, seen, same⟩ := mem_map.mp member
    obtain ⟨table, there, -, has⟩ := mem_sideColumns.mp (mem_visible.mp seen).1
    exact ⟨table, there, mem_map.mpr ⟨left.2, has, same⟩⟩
  · intro named
    obtain ⟨table, found, column, has, same, free⟩ := merged.first_visible named
    exact mem_map.mpr ⟨(table.aliasName, column), mem_visible.mpr
      ⟨mem_sideColumns.mpr ⟨table, mem_of_find?_eq_some found, rfl, has⟩, free⟩, same⟩

/-- A NATURAL JOIN flags columns that have the name of a visible column of the left side, and have
one after the rename too. -/
theorem merged_flagged (merged : Merged tables) (fresh : table.Fresh)
    (keeps : ∀ pair ∈ table.renames,
      pair.1.aliasName ∈ leftNames tables ↔ pair.2.aliasName ∈ leftNames tables) :
    Merged (tables ++ [(table.flagged (sideColumns tables)).renamed]) := by
  refine merged.concat fun column member set => ?_
  rw [columns_renamed_flagged] at member
  obtain ⟨pair, there, rfl⟩ := mem_map.mp member
  by_contra apart
  have old := mt (keeps pair there).mp apart
  refine set ?_
  rw [flag_eq_self old]
  exact fresh.free pair.1 (fst_mem_of_mem_renames there)

theorem naturalJoinCondition_eq_ok (fresh : table.Fresh) {state : NaturalJoinState}
    (ends : naturalJoinCondition tables table = .ok state) :
    Unambiguous (leftNames tables) table.names ∧ state = stateAfter (sideColumns tables) table := by
  rcases foldlM_equateColumn fresh (sideColumns tables) with ⟨clear, run⟩ | ⟨-, error, run⟩
  · exact ⟨clear, ok.inj (ends.symm.trans run)⟩
  · cases ends.symm.trans run

variable {join : JoinType × TableAlias} {result : List TableAlias} {first : TableAlias}
  {joins : List (JoinType × TableAlias)}

theorem eq_of_copyCorrelationSpecificationAliases
    (ends : (copyCorrelationSpecificationAliases table).map (tables ++ [·]) = .ok result) :
    result = tables ++ [table.renamed] := by
  rw [copyCorrelationSpecificationAliases] at ends
  split_ifs at ends
  · cases ends
  · exact (ok.inj ends).symm

/-- What one join of the list adds to the tables. -/
theorem qualifyJoin_eq_ok (fresh : join.2.Fresh) (ends : qualifyJoin tables join = .ok result) :
    (join.1 = .naturalJoin ∧ Unambiguous (leftNames tables) join.2.names ∧
      result = tables ++ [(join.2.flagged (sideColumns tables)).renamed]) ∨
    (join.1 ≠ .naturalJoin ∧ result = tables ++ [join.2.renamed]) := by
  rw [qualifyJoin] at ends
  split_ifs at ends with natural
  · cases step : naturalJoinCondition tables join.2 with
    | error error =>
      rw [step] at ends
      cases ends
    | ok state =>
      obtain ⟨clear, rfl⟩ := naturalJoinCondition_eq_ok fresh step
      rw [step] at ends
      exact .inl ⟨natural, clear, eq_of_copyCorrelationSpecificationAliases ends⟩
  · exact .inr ⟨natural, eq_of_copyCorrelationSpecificationAliases ends⟩

theorem qualifyJoins_concat (ends : qualifyJoins first (joins ++ [join]) = .ok result) :
    ∃ tables, qualifyJoins first joins = .ok tables ∧ qualifyJoin tables join = .ok result := by
  rw [qualifyJoins, ← cons_append, foldlM_append] at ends
  cases before : ((JoinType.noJoin, first) :: joins).foldlM qualifyJoin [] with
  | error error =>
    rw [before] at ends
    cases ends
  | ok tables =>
    rw [before] at ends
    refine ⟨tables, before, ?_⟩
    change [join].foldlM qualifyJoin tables = .ok result at ends
    simpa using ends

/-- A table without flags can stand behind any others. -/
theorem Merged.concat_fresh (merged : Merged tables) (fresh : table.Fresh) :
    Merged (tables ++ [table]) := by
  refine merged.concat fun column member set => ?_
  exact absurd (fresh.free column member) set

/-- The first table of the list has nothing on its left side. -/
theorem qualifyJoins_nil (ends : qualifyJoins first [] = .ok tables) :
    tables = [first.renamed] := by
  rw [qualifyJoins, foldlM_cons] at ends
  cases step : qualifyJoin [] (.noJoin, first) with
  | error error =>
    rw [step] at ends
    cases ends
  | ok result =>
    rw [step] at ends
    cases ends
    exact eq_of_copyCorrelationSpecificationAliases step

/-- The names of the tables that the loop leaves are those of the correlation specifications. -/
theorem flatMap_names_qualifyJoins (fresh : ∀ join ∈ joins, join.2.Fresh)
    (ends : qualifyJoins first joins = .ok tables) : tables.flatMap TableAlias.names =
      first.renamed.names ++ joins.flatMap (·.2.renamed.names) := by
  induction joins using reverseRecOn generalizing tables with
  | nil => simp [qualifyJoins_nil ends]
  | append_singleton joins join ih =>
    obtain ⟨before, run, step⟩ := qualifyJoins_concat ends
    have names := ih (fun other member => fresh other (by simp [member])) run
    obtain ⟨-, -, rfl⟩ | ⟨-, rfl⟩ := qualifyJoin_eq_ok (fresh join (by simp)) step
    · simp [names]
    · simp [names]

theorem keepCommon_concat {names : List String} : KeepCommon names (joins ++ [join]) ↔
    KeepCommon names joins ∧ (join.1 = .naturalJoin →
      join.2.KeepsCommon (names ++ joins.flatMap (·.2.renamed.names))) := by
  induction joins generalizing names with
  | nil => simp [KeepCommon]
  | cons other joins ih => simp [KeepCommon, ih, and_assoc]

/-- The condition depends on which names there are on the left side, not on their order. -/
theorem TableAlias.KeepsCommon.congr {names others : List String}
    (same : ∀ name, name ∈ names ↔ name ∈ others) (keeps : table.KeepsCommon names) :
    table.KeepsCommon others :=
  ⟨fun pair member => by rw [← same, ← same, keeps.columns pair member],
    fun name member => keeps.common name ((same name).mpr member)⟩

theorem Merged.mem_leftNames_iff_flatMap (merged : Merged tables) :
    name ∈ leftNames tables ↔ name ∈ tables.flatMap TableAlias.names := by
  rw [merged.mem_leftNames_iff, mem_flatMap]

/-- With such renames in the whole list, every flag stands at a merged column. -/
theorem qualifyJoins_merged (firstFresh : first.Fresh) (fresh : ∀ join ∈ joins, join.2.Fresh)
    (keep : KeepCommon first.renamed.names joins)
    (ends : qualifyJoins first joins = .ok tables) : Merged tables := by
  induction joins using reverseRecOn generalizing tables with
  | nil =>
    rw [qualifyJoins_nil ends]
    exact Merged.nil.concat_fresh firstFresh.renamed
  | append_singleton joins join ih =>
    obtain ⟨before, run, step⟩ := qualifyJoins_concat ends
    have last : join.2.Fresh := fresh join (by simp)
    have earlier : ∀ join ∈ joins, join.2.Fresh := fun other member =>
      fresh other (by simp [member])
    obtain ⟨keeps, kept⟩ := keepCommon_concat.mp keep
    have merged := ih earlier keeps run
    obtain ⟨natural, -, rfl⟩ | ⟨-, rfl⟩ := qualifyJoin_eq_ok last step
    · rw [← flatMap_names_qualifyJoins earlier run] at kept
      exact merged_flagged merged last
        ((kept natural).congr fun name => merged.mem_leftNames_iff_flatMap.symm).columns
    · exact merged.concat_fresh last.renamed

/-- A condition that equates every name that is common to the left tables and the right table, once
and with the first table that has it. -/
def EquatesCommonNames (tables : List TableAlias) (right : TableAlias)
    (condition : Option NaturalCondition) : Prop :=
  ∃ columns : List (String × String),
    condition = conjunction right.aliasName columns ∧ (columns.map Prod.snd).Nodup ∧
    (∀ name, name ∈ columns.map Prod.snd ↔
      (∃ table ∈ tables, name ∈ table.names) ∧ name ∈ right.names) ∧
    ∀ column ∈ columns, ∃ table, tables.find? (column.2 ∈ ·.names) = some table ∧
      table.aliasName = column.1

/-- Without an ambiguous name no two common columns have the same name. -/
theorem Unambiguous.nodup_filter {left right : List String} (clear : Unambiguous left right) :
    (left.filter (· ∈ right)).Nodup := by
  rw [nodup_iff_count_le_one]
  intro name
  by_cases there : name ∈ left.filter (· ∈ right)
  · obtain ⟨member, has⟩ := mem_filter.mp there
    have few := (clear name member (by simpa using has)).1
    exact (filter_sublist.count_le name).trans (Nat.lt_succ_iff.mp few)
  · rw [count_eq_zero.mpr there]
    exact Nat.zero_le 1

theorem map_snd_commonColumns :
    (commonColumns lefts right).map Prod.snd =
      (visibleNames lefts).filter (· ∈ right.names) := by
  rw [commonColumns, visibleNames, filter_map, filter_map, map_map]
  rfl

theorem equatesCommonNames (merged : Merged tables)
    (clear : Unambiguous (leftNames tables) right.names) :
    EquatesCommonNames tables right
      (conjunction right.aliasName (commonColumns (sideColumns tables) right)) := by
  have once : ((commonColumns (sideColumns tables) right).map Prod.snd).Nodup := by
    rw [map_snd_commonColumns]
    exact clear.nodup_filter
  refine ⟨_, rfl, once, fun name => ?_, fun column member => ?_⟩
  · rw [map_snd_commonColumns, mem_filter, decide_eq_true_iff, ← merged.mem_leftNames_iff]
    rfl
  · obtain ⟨there, has⟩ := mem_filter.mp member
    obtain ⟨left, seen, rfl⟩ := mem_map.mp there
    obtain ⟨table, found, other, inside, same, free⟩ := merged.first_visible
      (merged.mem_leftNames_iff.mp (mem_map_of_mem seen))
    refine ⟨table, found, ?_⟩
    -- the visible column of the first table has the name as well, so it is the one that is equated
    have again : (table.aliasName, other.aliasName) ∈ commonColumns (sideColumns tables) right :=
      mem_filter.mpr ⟨mem_map.mpr ⟨(table.aliasName, other), mem_visible.mpr
        ⟨mem_sideColumns.mpr ⟨table, mem_of_find?_eq_some found, rfl, inside⟩, free⟩, rfl⟩,
        by rwa [same]⟩
    exact congrArg Prod.fst (inj_on_of_nodup_map once again member same)

theorem conjunction_eq_none_iff {rightTable : String} {columns : List (String × String)} :
    conjunction rightTable columns = none ↔ columns = [] := by
  refine ⟨fun empty => ?_, fun nothing => by rw [nothing]; rfl⟩
  cases columns using reverseRecOn with
  | nil => rfl
  | append_singleton columns column => simp [conjunction] at empty

theorem conjunction_concat {rightTable : String} {columns : List (String × String)}
    {column : String × String} : conjunction rightTable (columns ++ [column]) =
      some (conjoin (conjunction rightTable columns)
        (equality rightTable column.1 column.2)) := by
  simp [conjunction]

theorem conjoin_equality_inj {rightTable : String} {condition other : Option NaturalCondition}
    {column further : String × String}
    (same : conjoin condition (equality rightTable column.1 column.2) =
      conjoin other (equality rightTable further.1 further.2)) :
    condition = other ∧ column = further := by
  have columns (equal : equality rightTable column.1 column.2 =
      equality rightTable further.1 further.2) : column = further := by
    simp only [equality, NaturalCondition.equals.injEq] at equal
    have name : column.2 = further.2 := by simpa [String.ext_iff] using equal.2
    rw [name] at equal
    exact Prod.ext (by simpa [String.ext_iff] using equal.1) name
  cases condition with
  | none =>
    cases other with
    | none => exact ⟨rfl, columns same⟩
    | some condition => cases same
  | some condition =>
    cases other with
    | none => cases same
    | some other =>
      simp only [conjoin, NaturalCondition.and.injEq] at same
      exact ⟨congrArg some same.1, columns same.2⟩

/-- The condition shows which columns it equates. -/
theorem conjunction_injective {rightTable : String} {columns others : List (String × String)}
    (same : conjunction rightTable columns = conjunction rightTable others) :
    columns = others := by
  induction columns using reverseRecOn generalizing others with
  | nil => exact (conjunction_eq_none_iff.mp same.symm).symm
  | append_singleton columns column ih =>
    cases others using reverseRecOn with
    | nil => simp [conjunction] at same
    | append_singleton others other =>
      rw [conjunction_concat, conjunction_concat, Option.some_inj] at same
      obtain ⟨before, last⟩ := conjoin_equality_inj same
      rw [ih before, last]

/-- A name that both sides have stands more than once on one of them. -/
def Ambiguous (left right : List String) : Prop :=
  ∃ name ∈ left, name ∈ right ∧ (2 ≤ left.count name ∨ 2 ≤ right.count name)

instance (left right : List String) : Decidable (Ambiguous left right) :=
  inferInstanceAs (Decidable (∃ name ∈ left, _))

theorem ambiguous_iff {left right : List String} :
    Ambiguous left right ↔ ¬Unambiguous left right := by
  rw [Ambiguous, Unambiguous]
  push Not
  refine exists_congr fun name => and_congr_right fun _ => and_congr_right fun _ => ?_
  omega

theorem naturalJoinCondition_eq_error_iff (fresh : right.Fresh) :
    (∃ error, naturalJoinCondition tables right = .error error) ↔
      Ambiguous (leftNames tables) right.names := by
  rw [ambiguous_iff]
  rcases foldlM_equateColumn fresh (sideColumns tables) with ⟨clear, run⟩ | ⟨unclear, fails⟩
  · refine iff_of_false ?_ (not_not.mpr clear)
    rintro ⟨error, ends⟩
    cases ends.symm.trans run
  · exact iff_of_true fails unclear

theorem EquatesCommonNames.eq_none_iff {condition : Option NaturalCondition}
    (equates : EquatesCommonNames tables right condition) :
    condition = none ↔ ∀ table ∈ tables, ∀ name ∈ table.names, name ∉ right.names := by
  obtain ⟨columns, rfl, -, names, -⟩ := equates
  rw [conjunction_eq_none_iff]
  constructor
  · rintro rfl table member name has there
    exact not_mem_nil ((names name).mpr ⟨⟨table, member, has⟩, there⟩)
  · intro apart
    refine eq_nil_iff_forall_not_mem.mpr fun column member => ?_
    obtain ⟨⟨table, there, has⟩, right⟩ := (names column.2).mp (mem_map_of_mem member)
    exact apart table there column.2 has right

/-- The condition that is built by the old names is right for the new ones if the common names are
the same, and only then. -/
theorem equatesCommonNames_renamed_iff (merged : Merged tables)
    (clear : Unambiguous (leftNames tables) right.names) :
    EquatesCommonNames tables right.renamed
        (conjunction right.aliasName (commonColumns (sideColumns tables) right)) ↔
      ∀ name ∈ leftNames tables, name ∈ right.names ↔ name ∈ right.renamed.names := by
  obtain ⟨columns, same, once, names, first⟩ := equatesCommonNames merged clear
  rw [same]
  constructor
  · rintro ⟨others, again, -, new, -⟩ name member
    rw [← conjunction_injective again] at new
    have both := (names name).symm.trans (new name)
    have named := merged.mem_leftNames_iff.mp member
    exact ⟨fun old => (both.mp ⟨named, old⟩).2, fun renamed => (both.mpr ⟨named, renamed⟩).2⟩
  · intro keeps
    refine ⟨columns, rfl, once, fun name => ?_, first⟩
    rw [names]
    refine and_congr_right fun named => keeps name ?_
    exact merged.mem_leftNames_iff.mpr named

end Octo.Parser
