import Octo.Parser.NaturalJoin

/-!
# The expansion of an asterisk

`process_asterisk` goes through the tables of a query and makes one column of the SELECT list for
every column that is not flagged as a duplicate. A flagged column marks the column of the SELECT
list that its primary was given, with the number of the table. After each table the marked columns
are moved to the front. The SQL rule for one join says the same by names: common columns, then the
other columns of the left side, then those of the right table. It goes by the names of the
correlation specifications, the flags of a NATURAL JOIN by those before the rename.
-/
namespace Octo.Parser

open Octo.Physical List

/-- A column of the SELECT list: the table column it was made from, its name, and the number that
`duplicate_of_column` is abused for, 0 for a null pointer. -/
structure OutputColumn where
  source : Nat
  aliasName : String
  mark : Nat
deriving DecidableEq, Repr

/-- The column of the SELECT list that is made for a column of a table. -/
def output (column : ColumnListAlias) : OutputColumn :=
  ⟨column.address, column.aliasName, 0⟩

/-- The loop over the columns of a table, for one column. The flag tells whether a common column was
seen. -/
def processColumn (number : Nat) (state : List OutputColumn × Bool) (column : ColumnListAlias) :
    List OutputColumn × Bool :=
  match column.duplicateOf with
  | none => (state.1 ++ [output column], state.2)
  | some primary =>
    (state.1.map fun made => if made.source = primary then { made with mark := number } else made,
      true)

/-- The loop that takes the marked columns out of the list and appends them to another one, and the
concatenation behind it. The first argument is the part of the list that is still to be visited. -/
def moveCommon (number : Nat) :
    List OutputColumn → List OutputColumn → List OutputColumn → List OutputColumn
  | [], list, common => common ++ list
  | current :: rest, list, common =>
    if current.mark = number then
      moveCommon number rest (list.erase current) (common ++ [{ current with mark := 0 }])
    else moveCommon number rest list common

/-- One table of the join list. -/
def processTable (state : List OutputColumn × Nat) (table : TableAlias) :
    List OutputColumn × Nat :=
  let columns := table.columns.foldl (processColumn state.2) (state.1, false)
  (if columns.2 then moveCommon state.2 columns.1 columns.1 [] else columns.1, state.2 + 1)

/-- `process_asterisk`. -/
def processAsterisk (tables : List TableAlias) : List OutputColumn :=
  (tables.foldl processTable ([], 1)).1

/-- The columns of a join by the SQL rule, under the names of the correlation specification. -/
def expandJoin (left : List ColumnListAlias) (join : JoinType × TableAlias) :
    List ColumnListAlias :=
  if join.1 = .naturalJoin then
    left.filter (·.aliasName ∈ join.2.renamed.names) ++
      left.filter (·.aliasName ∉ join.2.renamed.names) ++
      join.2.renamed.columns.filter (·.aliasName ∉ left.map (·.aliasName))
  else left ++ join.2.renamed.columns

/-- The columns of a join list, folded from left to right. -/
def expand (first : TableAlias) (joins : List (JoinType × TableAlias)) : List ColumnListAlias :=
  joins.foldl expandJoin first.renamed.columns

/-! ## One table -/

variable {number : Nat} {columns left : List ColumnListAlias} {marks : List Nat}

/-- The columns of the SELECT list for some columns, those at some addresses being marked. -/
def marked (number : Nat) (marks : List Nat) (column : ColumnListAlias) : OutputColumn :=
  ⟨column.address, column.aliasName, if column.address ∈ marks then number else 0⟩

theorem foldl_processColumn {seen : Bool} (apart : ∀ column ∈ columns, column.duplicateOf = none →
      column.address ∉ marks ++ columns.filterMap (·.duplicateOf)) :
    columns.foldl (processColumn number) (left.map (marked number marks), seen) =
      ((left ++ columns.filter (·.duplicateOf = none)).map
          (marked number (marks ++ columns.filterMap (·.duplicateOf))),
        seen || !(columns.filterMap (·.duplicateOf)).isEmpty) := by
  induction columns generalizing left marks seen with
  | nil => simp
  | cons column columns ih =>
    rw [foldl_cons, processColumn]
    cases flag : column.duplicateOf with
    | none =>
      have free : column.address ∉ marks ++ columns.filterMap (·.duplicateOf) := by
        simpa [flag] using apart column mem_cons_self flag
      have step : left.map (marked number marks) ++ [output column] =
          (left ++ [column]).map (marked number marks) := by
        simp only [mem_append, not_or] at free
        simp [marked, output, free.1]
      rw [step, ih fun other member none => by
        simpa [flag] using apart other (mem_cons_of_mem _ member) none]
      simp [flag]
    | some primary =>
      have step : (left.map (marked number marks)).map (fun made =>
          if made.source = primary then { made with mark := number } else made) =
          left.map (marked number (marks ++ [primary])) := by
        rw [map_map]
        refine map_congr_left fun other _ => ?_
        by_cases same : other.address = primary <;> simp [marked, same]
      dsimp only
      rw [step, ih fun other member none => by
        simpa [flag] using apart other (mem_cons_of_mem _ member) none]
      simp [flag]

theorem moveCommon_eq {kept todo common : List OutputColumn} (distinct : (kept ++ todo).Nodup) :
    moveCommon number todo (kept ++ todo) common =
      common ++ (todo.filter (·.mark = number)).map ({ · with mark := 0 }) ++
        (kept ++ todo.filter (·.mark ≠ number)) := by
  induction todo generalizing kept common with
  | nil => simp [moveCommon]
  | cons current todo ih =>
    rw [moveCommon]
    by_cases here : current.mark = number
    · have new : current ∉ kept := fun member =>
        (nodup_append.mp distinct).2.2 current member current mem_cons_self rfl
      have rest : (kept ++ todo).Nodup :=
        distinct.sublist (List.Sublist.append_left (sublist_cons_self _ _) kept)
      rw [erase_append_right _ new, erase_cons_head, ih rest]
      simp [here]
    · have same : kept ++ current :: todo = (kept ++ [current]) ++ todo := by simp
      rw [same, ih (same ▸ distinct)]
      simp [here]

theorem moveCommon_marked (positive : number ≠ 0) (distinct : (columns.map (·.address)).Nodup) :
    moveCommon number (columns.map (marked number marks)) (columns.map (marked number marks)) [] =
      (columns.filter (·.address ∈ marks) ++ columns.filter (·.address ∉ marks)).map output := by
  have nodup : (columns.map (marked number marks)).Nodup :=
    List.Nodup.of_map OutputColumn.source (by simpa [Function.comp_def, marked] using distinct)
  have whole := @moveCommon_eq number [] _ [] nodup
  rw [nil_append] at whole
  rw [whole, filter_map, filter_map, map_map, map_append]
  have chosen (column : ColumnListAlias) :
      (marked number marks column).mark = number ↔ column.address ∈ marks := by
    by_cases there : column.address ∈ marks
    · simp [marked, there]
    · simpa [marked, there] using Ne.symm positive
  have front : columns.filter ((fun made : OutputColumn => decide (made.mark = number)) ∘
      marked number marks) = columns.filter (·.address ∈ marks) :=
    filter_congr fun column _ => decide_eq_decide.mpr (chosen column)
  have back : columns.filter ((fun made : OutputColumn => decide (made.mark ≠ number)) ∘
      marked number marks) = columns.filter (·.address ∉ marks) :=
    filter_congr fun column _ => decide_eq_decide.mpr (not_congr (chosen column))
  rw [front, back]
  refine congrArg₂ _ rfl (map_congr_left fun column member => ?_)
  rw [marked, if_neg (by simpa using (mem_filter.mp member).2), output]

variable {table : TableAlias}

/-- The marked columns of the SELECT list come to the front, the new ones to the end. -/
theorem processTable_eq (positive : number ≠ 0)
    (apart : ∀ column ∈ table.columns, column.duplicateOf = none →
      column.address ∉ table.columns.filterMap (·.duplicateOf))
    (distinct : ((left ++ table.columns.filter (·.duplicateOf = none)).map (·.address)).Nodup) :
    processTable (left.map output, number) table =
      ((left.filter (·.address ∈ table.columns.filterMap (·.duplicateOf)) ++
        left.filter (·.address ∉ table.columns.filterMap (·.duplicateOf)) ++
        table.columns.filter (·.duplicateOf = none)).map output, number + 1) := by
  have start : output = marked number [] := by
    funext column
    simp [marked, output]
  rw [processTable]
  rw [congrArg left.map start, foldl_processColumn (by simpa using apart), nil_append,
    Bool.false_or]
  generalize table.columns.filterMap (·.duplicateOf) = marks at apart ⊢
  cases marks with
  | nil => simp [start]
  | cons primary marks =>
    rw [isEmpty_cons, Bool.not_false, if_pos rfl, moveCommon_marked positive distinct,
      filter_append, filter_append]
    have outside : ∀ column ∈ table.columns.filter (·.duplicateOf = none),
        column.address ∉ primary :: marks := by
      intro column member
      obtain ⟨there, free⟩ := mem_filter.mp member
      exact apart column there (by simpa using free)
    generalize table.columns.filter (·.duplicateOf = none) = new at outside ⊢
    have nothing : new.filter (·.address ∈ primary :: marks) = [] :=
      filter_eq_nil_iff.mpr fun column member => by simpa using outside column member
    have all : new.filter (·.address ∉ primary :: marks) = new :=
      filter_eq_self.mpr fun column member => by simpa using outside column member
    rw [nothing, all, append_nil, append_assoc]

/-! ## Join lists -/

variable {first : TableAlias} {joins : List (JoinType × TableAlias)}
  {join : JoinType × TableAlias} {tables : List TableAlias}

theorem processAsterisk_concat
    (before : tables.foldl processTable ([], 1) = (left.map output, number)) :
    (tables ++ [table]).foldl processTable ([], 1) =
      processTable (left.map output, number) table := by
  rw [foldl_append, before]
  rfl

theorem expand_concat :
    expand first (joins ++ [join]) = expandJoin (expand first joins) join := by
  simp [expand]

theorem TableAlias.Fresh.filterMap_duplicateOf (fresh : table.Fresh) :
    table.columns.filterMap (·.duplicateOf) = [] :=
  filterMap_eq_nil_iff.mpr fresh.free

theorem TableAlias.Fresh.filter_duplicateOf (fresh : table.Fresh) :
    table.columns.filter (·.duplicateOf = none) = table.columns :=
  filter_eq_self.mpr fun column member => by simpa using fresh.free column member

variable {lefts : List (String × ColumnListAlias)} {right : TableAlias}

/-- The columns that a NATURAL JOIN leaves without a flag are those whose old name is not common. -/
theorem filter_renamed_flagged (fresh : right.Fresh) :
    (right.flagged lefts).renamed.columns.filter (·.duplicateOf = none) =
      (right.renames.filter (·.1.aliasName ∉ visibleNames lefts)).map Prod.snd := by
  have unflagged (pair : ColumnListAlias × ColumnListAlias) (member : pair ∈ right.renames) :
      (flag lefts pair.1).duplicateOf = none ↔ pair.1.aliasName ∉ visibleNames lefts := by
    constructor
    · intro unset seen
      have set := isSome_duplicateOf_flag seen
      rw [unset] at set
      cases set
    · intro apart
      rw [flag_eq_self apart]
      exact fresh.free pair.1 (fst_mem_of_mem_renames member)
  rw [columns_renamed_flagged, filter_map]
  have same : right.renames.filter ((fun column : ColumnListAlias =>
      decide (column.duplicateOf = none)) ∘ fun pair =>
        { pair.2 with duplicateOf := (flag lefts pair.1).duplicateOf }) =
      right.renames.filter (·.1.aliasName ∉ visibleNames lefts) :=
    filter_congr fun pair member => decide_eq_decide.mpr (unflagged pair member)
  rw [same]
  refine map_congr_left fun pair member => ?_
  obtain ⟨there, apart⟩ := mem_filter.mp member
  rw [(unflagged pair there).mpr (by simpa using apart)]
  have free : pair.2.duplicateOf = none :=
    fresh.renamed.free pair.2 (map_snd_renames ▸ mem_map_of_mem there)
  rw [← free]

theorem filterMap_duplicateOf_flagged :
    (right.flagged lefts).renamed.columns.filterMap (·.duplicateOf) =
      right.columns.filterMap fun column => (flag lefts column).duplicateOf := by
  rw [columns_renamed_flagged, filterMap_map, ← map_fst_renames, filterMap_map]
  rfl

/-- A flag is the address of a left column whose name the right table has. -/
theorem exists_of_mem_flags (fresh : right.Fresh) {address : Nat}
    (there : address ∈ (right.flagged lefts).renamed.columns.filterMap (·.duplicateOf)) :
    ∃ left ∈ visible lefts, left.2.aliasName ∈ right.names ∧ left.2.address = address := by
  rw [filterMap_duplicateOf_flagged] at there
  obtain ⟨column, member, set⟩ := mem_filterMap.mp there
  cases found : (visible lefts).find? (·.2.aliasName = column.aliasName) with
  | none => simp [flag, found, fresh.free column member] at set
  | some left =>
    have named : left.2.aliasName = column.aliasName := by simpa using find?_some found
    exact ⟨left, mem_of_find?_eq_some found, mem_map.mpr ⟨column, member, named.symm⟩,
      by simpa [flag, found] using set⟩

/-- The flags of the right table refer to the left columns of a common name. -/
theorem address_mem_flags_iff (clear : Unambiguous (visibleNames lefts) right.names)
    (distinct : ((visible lefts).map (·.2.address)).Nodup) {left : String × ColumnListAlias}
    (seen : left ∈ visible lefts) (fresh : right.Fresh) :
    left.2.address ∈ (right.flagged lefts).renamed.columns.filterMap (·.duplicateOf) ↔
      left.2.aliasName ∈ right.names := by
  constructor
  · intro there
    obtain ⟨other, otherSeen, named, same⟩ := exists_of_mem_flags fresh there
    rwa [← inj_on_of_nodup_map distinct otherSeen seen same]
  · intro there
    obtain ⟨column, member, named⟩ := mem_map.mp there
    rw [filterMap_duplicateOf_flagged]
    refine mem_filterMap.mpr ⟨column, member, ?_⟩
    cases found : (visible lefts).find? (·.2.aliasName = column.aliasName) with
    | none => exact absurd (by simpa using named.symm) (find?_eq_none.mp found left seen)
    | some other =>
      have again : other.2.aliasName = left.2.aliasName := by
        rw [← named]
        simpa using find?_some found
      -- no name is ambiguous, so the first visible column of the name is the only one
      have once := clear.nodup_filter
      rw [visibleNames, filter_map] at once
      have same : other = left := inj_on_of_nodup_map once
        (mem_filter.mpr ⟨mem_of_find?_eq_some found, by simpa [again] using there⟩)
        (mem_filter.mpr ⟨seen, by simpa using there⟩) again
      simp [flag, found, same]

theorem map_snd_visible_concat :
    (visible (sideColumns (tables ++ [table]))).map Prod.snd =
      (visible (sideColumns tables)).map Prod.snd ++
        table.columns.filter (·.duplicateOf = none) := by
  simp [visible, sideColumns, filter_map, Function.comp_def]

/-- What `process_asterisk` makes of a join: the SQL rule, but by the old names of the right
table. -/
def mergeJoin (left : List ColumnListAlias) (join : JoinType × TableAlias) :
    List ColumnListAlias :=
  if join.1 = .naturalJoin then
    left.filter (·.aliasName ∈ join.2.names) ++ left.filter (·.aliasName ∉ join.2.names) ++
      (join.2.renames.filter (·.1.aliasName ∉ left.map (·.aliasName))).map Prod.snd
  else left ++ join.2.renamed.columns

/-- The same for a join list. -/
def mergeJoins (first : TableAlias) (joins : List (JoinType × TableAlias)) :
    List ColumnListAlias :=
  joins.foldl mergeJoin first.renamed.columns

theorem mergeJoins_concat :
    mergeJoins first (joins ++ [join]) = mergeJoin (mergeJoins first joins) join := by
  simp [mergeJoins]

theorem mergeJoin_subperm : (mergeJoin left join).Subperm (left ++ join.2.renamed.columns) := by
  rw [mergeJoin]
  split_ifs
  · have sides : (left.filter (·.aliasName ∈ join.2.names) ++
        left.filter (·.aliasName ∉ join.2.names)).Perm left := by
      simpa using filter_append_perm (·.aliasName ∈ join.2.names) left
    refine (sides.append_right _).subperm.trans (List.Sublist.append_left ?_ left).subperm
    rw [← map_snd_renames]
    exact filter_sublist.map _
  · exact List.Subperm.refl _

theorem mergeJoins_subperm : (mergeJoins first joins).Subperm
    (first.renamed.columns ++ joins.flatMap (·.2.renamed.columns)) := by
  induction joins using reverseRecOn with
  | nil => simpa [mergeJoins] using List.Subperm.refl first.renamed.columns
  | append_singleton joins join ih =>
    rw [mergeJoins_concat]
    refine mergeJoin_subperm.trans ?_
    simpa using (subperm_append_right join.2.renamed.columns).mpr ih

/-- One join: the columns of the SELECT list and their relation to the visible columns. -/
theorem processTable_join (fresh : join.2.Fresh) {result : List TableAlias}
    (step : qualifyJoin tables join = .ok result)
    (same : left.Perm ((visible (sideColumns tables)).map Prod.snd))
    (distinct : ((left ++ join.2.renamed.columns).map (·.address)).Nodup) (positive : number ≠ 0)
    (run : tables.foldl processTable ([], 1) = (left.map output, number)) :
    result.foldl processTable ([], 1) = ((mergeJoin left join).map output, number + 1) ∧
      (mergeJoin left join).Perm ((visible (sideColumns result)).map Prod.snd) := by
  obtain ⟨natural, clear, rfl⟩ | ⟨plain, rfl⟩ := qualifyJoin_eq_ok fresh step
  · have free := @filter_renamed_flagged (sideColumns tables) join.2 fresh
    have names : ∀ name, name ∈ left.map (·.aliasName) ↔ name ∈ leftNames tables := fun name => by
      rw [(same.map (·.aliasName)).mem_iff, map_map]
      rfl
    have new : join.2.renames.filter (·.1.aliasName ∉ left.map (·.aliasName)) =
        join.2.renames.filter (·.1.aliasName ∉ visibleNames (sideColumns tables)) :=
      filter_congr fun pair _ => decide_eq_decide.mpr (not_congr (names _))
    have addresses : ((visible (sideColumns tables)).map (·.2.address)).Nodup := by
      have part := distinct.sublist ((sublist_append_left left join.2.renamed.columns).map _)
      rw [(same.map (·.address)).nodup_iff, map_map] at part
      exact part
    have chosen : ∀ column ∈ left, (column.address ∈
        (join.2.flagged (sideColumns tables)).renamed.columns.filterMap (·.duplicateOf) ↔
          column.aliasName ∈ join.2.names) := by
      intro column member
      obtain ⟨other, seen, rfl⟩ := mem_map.mp (same.mem_iff.mp member)
      exact address_mem_flags_iff clear addresses seen fresh
    rw [processAsterisk_concat run, processTable_eq positive, mergeJoin, if_pos natural, new,
      map_snd_visible_concat, free,
      filter_congr fun column member => decide_eq_decide.mpr (chosen column member),
      filter_congr fun column member => decide_eq_decide.mpr (not_congr (chosen column member))]
    · refine ⟨rfl, List.Perm.append_right _ (List.Perm.trans ?_ same)⟩
      simpa using filter_append_perm (·.aliasName ∈ join.2.names) left
    · intro column member unset there
      obtain ⟨primary, seen, -, isFlag⟩ := exists_of_mem_flags fresh there
      rw [columns_renamed_flagged] at member
      obtain ⟨pair, inside, rfl⟩ := mem_map.mp member
      have inLeft := same.mem_iff.mpr (mem_map_of_mem seen)
      have listed : pair.2 ∈ join.2.renamed.columns := by
        rw [← map_snd_renames]
        exact mem_map_of_mem inside
      rw [map_append, nodup_append] at distinct
      exact distinct.2.2 _ (mem_map_of_mem inLeft) _ (mem_map_of_mem listed) isFlag
    · rw [free]
      refine distinct.sublist ((List.Sublist.append_left ?_ left).map _)
      rw [← map_snd_renames]
      exact filter_sublist.map _
  · have right := fresh.renamed
    rw [processAsterisk_concat run, processTable_eq positive, right.filterMap_duplicateOf,
      mergeJoin, if_neg plain, map_snd_visible_concat, right.filter_duplicateOf]
    · exact ⟨by simp, same.append_right _⟩
    · simp [right.filterMap_duplicateOf]
    · rwa [right.filter_duplicateOf]

theorem flatMap_address_renamed :
    (first.renamed.columns ++ joins.flatMap (·.2.renamed.columns)).map (·.address) =
      (first.columns ++ joins.flatMap (·.2.columns)).map (·.address) := by
  simp only [map_append, map_flatMap, map_address_renamed]

/-- The whole list: the columns of the SELECT list, which are the visible columns of the tables. -/
theorem foldl_processTable (firstFresh : first.Fresh) (fresh : ∀ join ∈ joins, join.2.Fresh)
    (distinct : ((first.renamed.columns ++ joins.flatMap (·.2.renamed.columns)).map
      (·.address)).Nodup)
    (chain : qualifyJoins first joins = .ok tables) :
    tables.foldl processTable ([], 1) = ((mergeJoins first joins).map output, joins.length + 2) ∧
      (mergeJoins first joins).Perm ((visible (sideColumns tables)).map Prod.snd) := by
  induction joins using reverseRecOn generalizing tables with
  | nil =>
    rw [qualifyJoins_nil chain]
    have only := @processTable_eq 1 [] first.renamed Nat.one_ne_zero
      (by simp [firstFresh.renamed.filterMap_duplicateOf])
      (by simpa [firstFresh.renamed.filter_duplicateOf] using firstFresh.renamed.distinct)
    rw [firstFresh.renamed.filter_duplicateOf] at only
    refine ⟨by simpa [mergeJoins] using only, ?_⟩
    rw [← nil_append [first.renamed], map_snd_visible_concat,
      firstFresh.renamed.filter_duplicateOf]
    exact List.Perm.refl _
  | append_singleton joins join ih =>
    obtain ⟨before, run, step⟩ := qualifyJoins_concat chain
    rw [flatMap_append, ← append_assoc, flatMap_singleton] at distinct
    obtain ⟨columns, same⟩ := ih (fun other member => fresh other (by simp [member]))
      (distinct.sublist ((sublist_append_left _ _).map _)) run
    rw [mergeJoins_concat, length_append]
    refine processTable_join (fresh join (by simp)) step same ?_ (by omega) columns
    obtain ⟨list, perm, sub⟩ := (subperm_append_right join.2.renamed.columns).mpr
      (@mergeJoins_subperm first joins)
    exact (perm.map _).nodup_iff.mp (distinct.sublist (sub.map _))

/-- The result of `process_asterisk`, whatever is renamed. -/
theorem processAsterisk_eq (firstFresh : first.Fresh) (fresh : ∀ join ∈ joins, join.2.Fresh)
    (distinct : ((first.columns ++ joins.flatMap (·.2.columns)).map (·.address)).Nodup)
    (chain : qualifyJoins first joins = .ok tables) :
    processAsterisk tables = (mergeJoins first joins).map output := by
  rw [← flatMap_address_renamed] at distinct
  rw [processAsterisk, (foldl_processTable firstFresh fresh distinct chain).1]

/-! ## The SQL rule -/

/-- The names of a join are those of both sides. -/
theorem mem_names_expandJoin {name : String} : name ∈ (expandJoin left join).map (·.aliasName) ↔
    name ∈ left.map (·.aliasName) ∨ name ∈ join.2.renamed.names := by
  rw [expandJoin]
  split_ifs
  · simp only [map_append, mem_append, mem_map, mem_filter, decide_eq_true_eq, TableAlias.names]
    constructor
    · rintro ((⟨column, ⟨member, -⟩, rfl⟩ | ⟨column, ⟨member, -⟩, rfl⟩) |
        ⟨column, ⟨member, -⟩, rfl⟩)
      · exact .inl ⟨column, member, rfl⟩
      · exact .inl ⟨column, member, rfl⟩
      · exact .inr ⟨column, member, rfl⟩
    · rintro (⟨column, member, rfl⟩ | ⟨column, member, rfl⟩)
      · by_cases there : ∃ other ∈ join.2.renamed.columns, other.aliasName = column.aliasName
        · exact .inl (.inl ⟨column, ⟨member, there⟩, rfl⟩)
        · exact .inl (.inr ⟨column, ⟨member, there⟩, rfl⟩)
      · by_cases there : ∃ other ∈ left, other.aliasName = column.aliasName
        · obtain ⟨other, seen, same⟩ := there
          exact .inl (.inl ⟨other, ⟨seen, column, member, same.symm⟩, same⟩)
        · exact .inr ⟨column, ⟨member, there⟩, rfl⟩
  · simp [TableAlias.names]

theorem mem_names_expand {name : String} : name ∈ (expand first joins).map (·.aliasName) ↔
    name ∈ first.renamed.names ++ joins.flatMap (·.2.renamed.names) := by
  induction joins using reverseRecOn with
  | nil => simp [expand, TableAlias.names]
  | append_singleton joins join ih =>
    rw [expand_concat, mem_names_expandJoin, ih]
    simp [or_assoc]

/-- No name that a NATURAL JOIN of the list has in common is ambiguous, under the names of the
correlation specifications. -/
def Clear : List ColumnListAlias → List (JoinType × TableAlias) → Prop
  | _, [] => True
  | left, join :: joins =>
    (join.1 = .naturalJoin → Unambiguous (left.map (·.aliasName)) join.2.renamed.names) ∧
      Clear (expandJoin left join) joins

theorem clear_concat : Clear left (joins ++ [join]) ↔ Clear left joins ∧
    (join.1 = .naturalJoin →
      Unambiguous ((joins.foldl expandJoin left).map (·.aliasName)) join.2.renamed.names) := by
  induction joins generalizing left with
  | nil => simp [Clear]
  | cons other joins ih => simp [Clear, ih, and_assoc]

theorem Unambiguous.of_perm {names others right : List String} (clear : Unambiguous others right)
    (same : names.Perm others) : Unambiguous names right := by
  intro name member there
  rw [same.count_eq]
  exact clear name (same.mem_iff.mp member) there

/-- Without an ambiguous name there are as many common columns on one side as on the other. -/
theorem Unambiguous.length_filter {names others : List String} (clear : Unambiguous names others) :
    (names.filter (· ∈ others)).length = (others.filter (· ∈ names)).length := by
  have swapped : Unambiguous others names := fun name there member =>
    (clear name member there).symm
  refine ((perm_ext_iff_of_nodup clear.nodup_filter swapped.nodup_filter).mpr ?_).length_eq
  intro name
  simp [and_comm]

theorem filter_eq_of_map_eq {α β : Type} {list : List α} {key : α → β} {p q : α → Bool}
    (distinct : (list.map key).Nodup) (same : (list.filter p).map key = (list.filter q).map key) :
    ∀ item ∈ list, p item = q item := by
  have half {r t : α → Bool} (equal : (list.filter r).map key = (list.filter t).map key)
      {item : α} (member : item ∈ list) (holds : r item = true) : t item = true := by
    have there : key item ∈ (list.filter t).map key :=
      equal ▸ mem_map_of_mem (mem_filter.mpr ⟨member, holds⟩)
    obtain ⟨other, inside, again⟩ := mem_map.mp there
    obtain ⟨listed, good⟩ := mem_filter.mp inside
    rwa [inj_on_of_nodup_map distinct listed member again] at good
  intro item member
  rw [Bool.eq_iff_iff]
  exact ⟨half same member, half same.symm member⟩

/-- A rename that keeps the common names makes no difference to the columns. -/
theorem mergeJoin_eq_expandJoin
    (keeps : join.1 = .naturalJoin → join.2.KeepsCommon (left.map (·.aliasName))) :
    mergeJoin left join = expandJoin left join := by
  rw [mergeJoin, expandJoin]
  split_ifs with natural
  · obtain ⟨columns, common⟩ := keeps natural
    have front : ∀ column ∈ left,
        (column.aliasName ∈ join.2.names ↔ column.aliasName ∈ join.2.renamed.names) :=
      fun column member => common _ (mem_map_of_mem member)
    rw [filter_congr fun column member => decide_eq_decide.mpr (front column member),
      filter_congr fun column member => decide_eq_decide.mpr (not_congr (front column member)),
      filter_congr fun pair member => decide_eq_decide.mpr (not_congr (columns pair member)),
      ← map_snd_renames, filter_map]
    rfl
  · rfl

/-- If a NATURAL JOIN makes the columns of the SQL rule, its rename keeps the common names. -/
theorem keepsCommon_of_mergeJoin {table : TableAlias}
    (distinct : ((left ++ table.renamed.columns).map (·.address)).Nodup)
    (old : Unambiguous (left.map (·.aliasName)) table.names)
    (new : Unambiguous (left.map (·.aliasName)) table.renamed.names)
    (same : (mergeJoin left (.naturalJoin, table)).map (·.address) =
      (expandJoin left (.naturalJoin, table)).map (·.address)) :
    table.KeepsCommon (left.map (·.aliasName)) := by
  rw [mergeJoin, if_pos rfl, expandJoin, if_pos rfl, ← map_snd_renames, filter_map,
    @map_append _ _ _ (_ ++ _), @map_append _ _ _ (_ ++ _)] at same
  -- both begin with the columns of the left side, in some order
  have sides (names : List String) : ((left.filter (·.aliasName ∈ names) ++
      left.filter (·.aliasName ∉ names)).map (·.address)).length = left.length := by
    rw [length_map]
    simpa using (filter_append_perm (·.aliasName ∈ names) left).length_eq
  obtain ⟨front, back⟩ := append_inj same ((sides _).trans (sides _).symm)
  have columns : ∀ pair ∈ table.renames, (pair.1.aliasName ∈ left.map (·.aliasName) ↔
      pair.2.aliasName ∈ left.map (·.aliasName)) := by
    rw [map_map, map_map] at back
    have addresses : (table.renames.map ((·.address) ∘ Prod.snd)).Nodup := by
      rw [← map_map, map_snd_renames]
      exact distinct.sublist ((sublist_append_right _ _).map _)
    intro pair member
    exact not_iff_not.mp (decide_eq_decide.mp (filter_eq_of_map_eq addresses back pair member))
  refine ⟨columns, fun name member => ?_⟩
  -- as many columns of the left side are moved to the front in both
  have length : ((left.filter (·.aliasName ∈ table.names)).map (·.address)).length =
      ((left.filter (·.aliasName ∈ table.renamed.names)).map (·.address)).length := by
    have count (names : List String) :
        ((left.filter (·.aliasName ∈ names)).map (·.address)).length =
          ((left.map (·.aliasName)).filter (· ∈ names)).length := by
      rw [length_map, filter_map, length_map]
      rfl
    rw [count, count, old.length_filter, new.length_filter, TableAlias.names, TableAlias.names,
      ← map_fst_renames, ← map_snd_renames, map_map, map_map, filter_map, filter_map, length_map,
      length_map]
    exact congrArg length (filter_congr fun pair member =>
      decide_eq_decide.mpr (columns pair member))
  rw [map_append, map_append] at front
  obtain ⟨column, there, rfl⟩ := mem_map.mp member
  exact decide_eq_decide.mp (filter_eq_of_map_eq
    (distinct.sublist ((sublist_append_left _ _).map _)) (append_inj front length).1 column there)

/-! ## Correctness -/

/-- With renames that keep the common names the columns are those of the SQL rule. -/
theorem mergeJoins_eq_expand (keep : KeepCommon first.renamed.names joins) :
    mergeJoins first joins = expand first joins := by
  induction joins using reverseRecOn with
  | nil => rfl
  | append_singleton joins join ih =>
    obtain ⟨before, last⟩ := keepCommon_concat.mp keep
    rw [mergeJoins_concat, expand_concat, ih before]
    refine mergeJoin_eq_expandJoin fun natural => ?_
    exact (last natural).congr fun name => mem_names_expand.symm

theorem expand_of_plain (plain : ∀ join ∈ joins, join.1 ≠ .naturalJoin) :
    expand first joins = first.renamed.columns ++ joins.flatMap (·.2.renamed.columns) := by
  induction joins using reverseRecOn with
  | nil => simp [expand]
  | append_singleton joins join ih =>
    rw [expand_concat, ih fun other member => plain other (by simp [member]), expandJoin,
      if_neg (plain join (by simp))]
    simp

/-- What holds for a list holds for all that it begins with. -/
theorem KeepCommon.of_append {names : List String} {after : List (JoinType × TableAlias)}
    (keep : KeepCommon names (joins ++ after)) : KeepCommon names joins := by
  induction joins generalizing names with
  | nil => trivial
  | cons join joins ih => exact ⟨keep.1, ih keep.2⟩

theorem keepCommon_of_plain {names : List String}
    (plain : ∀ join ∈ joins, join.1 ≠ .naturalJoin) : KeepCommon names joins := by
  induction joins generalizing names with
  | nil => trivial
  | cons join joins ih =>
    exact ⟨fun natural => absurd natural (plain join mem_cons_self),
      ih fun other member => plain other (mem_cons_of_mem _ member)⟩

/-- If a list and all that it begins with are expanded by the SQL rule, every rename keeps the
common names. The induction is on the list; the rule for the shorter lists gives the left side of
the last join. -/
theorem keepCommon_of_prefixes (firstFresh : first.Fresh) (fresh : ∀ join ∈ joins, join.2.Fresh)
    (distinct : ((first.columns ++ joins.flatMap (·.2.columns)).map (·.address)).Nodup)
    (clear : Clear first.renamed.columns joins) (chain : qualifyJoins first joins = .ok tables)
    (right : ∀ before, before <+: joins → ∀ result, qualifyJoins first before = .ok result →
      processAsterisk result = (expand first before).map output) :
    KeepCommon first.renamed.names joins := by
  induction joins using reverseRecOn generalizing tables with
  | nil => trivial
  | append_singleton joins join ih =>
    obtain ⟨before, run, step⟩ := qualifyJoins_concat chain
    obtain ⟨clearBefore, new⟩ := clear_concat.mp clear
    have earlier : ∀ join ∈ joins, join.2.Fresh := fun other member =>
      fresh other (by simp [member])
    have all := distinct
    rw [flatMap_append, ← append_assoc, flatMap_singleton] at distinct
    have shorter := distinct.sublist ((sublist_append_left _ _).map _)
    have keep := ih earlier shorter clearBefore run fun list start =>
      right list (start.trans (prefix_append _ _))
    refine keepCommon_concat.mpr ⟨keep, fun natural => ?_⟩
    have last := congrArg (map (·.source)) (right _ (prefix_refl _) _ chain)
    rw [processAsterisk_eq firstFresh fresh all chain, mergeJoins_concat, expand_concat,
      mergeJoins_eq_expand keep, map_map, map_map] at last
    obtain ⟨type, table⟩ := join
    subst natural
    obtain ⟨-, old, -⟩ | ⟨plain, -⟩ :=
      qualifyJoin_eq_ok (fresh (.naturalJoin, table) (by simp)) step
    · rw [← flatMap_address_renamed] at all shorter
      have same := (foldl_processTable firstFresh earlier shorter run).2.map (·.aliasName)
      rw [mergeJoins_eq_expand keep, map_map] at same
      refine (keepsCommon_of_mergeJoin ?_ (old.of_perm same) (new rfl) last).congr
        fun name => mem_names_expand
      rw [flatMap_append, ← append_assoc, flatMap_singleton] at all
      have part := @mergeJoins_subperm first joins
      rw [mergeJoins_eq_expand keep] at part
      obtain ⟨list, perm, sub⟩ := (subperm_append_right table.renamed.columns).mpr part
      exact (perm.map _).nodup_iff.mp (all.sublist (sub.map _))
    · exact absurd rfl plain

/-- The expansion of an asterisk is the fold of the SQL rule over the joins, for the list and for
all that it begins with, if and only if the renames keep the common names of its NATURAL JOINs. Then
it has every column that no NATURAL JOIN flagged, once; without a NATURAL JOIN it is the
concatenation of the tables. -/
theorem processAsterisk_correct_iff (first : TableAlias) (joins : List (JoinType × TableAlias))
    (firstFresh : first.Fresh) (fresh : ∀ join ∈ joins, join.2.Fresh)
    (distinct : ((first.columns ++ joins.flatMap (·.2.columns)).map (·.address)).Nodup)
    (clear : Clear first.renamed.columns joins) (tables : List TableAlias)
    (chain : qualifyJoins first joins = .ok tables) :
    ((∀ before, before <+: joins → ∀ result, qualifyJoins first before = .ok result →
        processAsterisk result = (expand first before).map output) ↔
      KeepCommon first.renamed.names joins) ∧
    ((processAsterisk tables).map (·.source)).Perm
      ((visible (sideColumns tables)).map (·.2.address)) ∧
    ((processAsterisk tables).map (·.source)).Nodup ∧
    ((∀ join ∈ joins, join.1 ≠ .naturalJoin) → processAsterisk tables =
      (first.renamed.columns ++ joins.flatMap (·.2.renamed.columns)).map output) := by
  have addresses := distinct
  rw [← flatMap_address_renamed] at addresses
  have columns := processAsterisk_eq firstFresh fresh distinct chain
  have sources : (processAsterisk tables).map (·.source) =
      (mergeJoins first joins).map (·.address) := by
    rw [columns, map_map]
    rfl
  refine ⟨⟨fun right => keepCommon_of_prefixes firstFresh fresh distinct clear chain right,
    fun keep before start result run => ?_⟩, ?_, ?_, fun plain => ?_⟩
  · obtain ⟨after, rfl⟩ := start
    rw [processAsterisk_eq firstFresh (fun join member => fresh join (mem_append_left _ member))
      (distinct.sublist ?_) run, mergeJoins_eq_expand keep.of_append]
    rw [flatMap_append, ← append_assoc]
    exact (sublist_append_left _ _).map _
  · have visible := (foldl_processTable firstFresh fresh addresses chain).2.map (·.address)
    rw [map_map] at visible
    rw [sources]
    exact visible
  · obtain ⟨list, perm, sub⟩ := @mergeJoins_subperm first joins
    rw [sources]
    exact (perm.map _).nodup_iff.mp (addresses.sublist (sub.map _))
  · rw [columns, mergeJoins_eq_expand (keepCommon_of_plain plain), expand_of_plain plain]

/-- `a(x, id) NATURAL JOIN b(y, id) AS c(z)`: the common column comes first. -/
theorem processAsterisk_correct_iff_natural :
    (processAsterisk
      [⟨"a", [⟨1, "x", none⟩, ⟨2, "id", none⟩], []⟩,
        ⟨"c", [⟨3, "z", none⟩, ⟨4, "id", some 2⟩], ["z"]⟩]).map (·.source) = [2, 1, 3] := by
  have correct := (processAsterisk_correct_iff ⟨"a", [⟨1, "x", none⟩, ⟨2, "id", none⟩], []⟩
    [(.naturalJoin, ⟨"c", [⟨3, "y", none⟩, ⟨4, "id", none⟩], ["z"]⟩)] ⟨by decide, by decide⟩
    (by rintro join (_ | ⟨_, ⟨⟩⟩); exact ⟨by decide, by decide⟩) (by decide)
    ⟨fun _ => by unfold Unambiguous; decide, trivial⟩ _ rfl).1.mpr
      ⟨fun _ => by decide, trivial⟩ _ (prefix_refl _) _ rfl
  exact (congrArg _ correct).trans (by decide)

/-- `a NATURAL JOIN b AS b2(k, id)` with `a(id)` and `b(id, x)`: the SQL rule gives `id` and `k`,
the code `a.id` and `b2.id`. -/
theorem processAsterisk_renamed :
    ∃ tables, qualifyJoins ⟨"a", [⟨1, "id", none⟩], []⟩
        [(.naturalJoin, ⟨"b2", [⟨2, "id", none⟩, ⟨3, "x", none⟩], ["k", "id"]⟩)] = .ok tables ∧
      processAsterisk tables ≠ (expand ⟨"a", [⟨1, "id", none⟩], []⟩
        [(.naturalJoin, ⟨"b2", [⟨2, "id", none⟩, ⟨3, "x", none⟩], ["k", "id"]⟩)]).map output ∧
      (processAsterisk tables).map (·.source) = [1, 3] ∧
      (expand ⟨"a", [⟨1, "id", none⟩], []⟩
        [(.naturalJoin, ⟨"b2", [⟨2, "id", none⟩, ⟨3, "x", none⟩], ["k", "id"]⟩)]).map
          (·.address) = [1, 2] :=
  ⟨_, rfl, by decide, by decide, by decide⟩

end Octo.Parser
