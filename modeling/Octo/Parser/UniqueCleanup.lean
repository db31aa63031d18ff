import Mathlib

/-!
# Duplicate UNIQUE constraints of a table

After the constraints of a CREATE TABLE have been moved to the column or to the table level,
`table_definition` puts a table-level PRIMARY KEY ahead of the other table-level constraints. It
then deletes every UNIQUE constraint that repeats another one, and keeps the name of a deleted
constraint if the one that stays has none. The loop over the keywords of a column ends when it comes
back to the keyword it started with, so it never ends once that keyword has been deleted.
-/
namespace Octo.Parser.UniqueCleanup

open List

/-- The constraints that take part in the clean-up. -/
inductive ConstraintType
  | primaryKey
  | unique
  deriving DecidableEq

/-- A constraint with its name, if the user gave one, and its column list. -/
structure SqlConstraint where
  type : ConstraintType
  name : Option String
  definition : List String

open SqlConstraint

def SqlConstraint.isUnique (constraint : SqlConstraint) : Bool :=
  constraint.type = .unique

/-- A keyword of a column, none for those that are neither UNIQUE nor PRIMARY KEY. -/
abbrev SqlOptionalKeyword : Type :=
  Option SqlConstraint

/-- A column with its keywords, in the order of the circular list from its start, or the column
without a name that holds one table-level constraint. -/
inductive SqlColumn
  | column (columnName : String) (keywords : List SqlOptionalKeyword)
  | tableLevel (keyword : SqlOptionalKeyword)

open SqlColumn

namespace SqlColumn

def isNamed : SqlColumn → Bool
  | column _ _ => true
  | tableLevel _ => false

def constraint? : SqlColumn → Option SqlConstraint
  | column _ _ => none
  | tableLevel keyword => keyword

/-- A PRIMARY KEY with a column list of its own. -/
def isTablePrimaryKey (column : SqlColumn) : Bool :=
  column.constraint?.any (!·.isUnique)

/-- The loop over the keywords deletes the one it has started with: a UNIQUE in front of a PRIMARY
KEY. -/
def isEndless : SqlColumn → Bool
  | column _ keywords =>
    keywords.head?.join.any (·.isUnique) && keywords.reduceOption.any (!·.isUnique)
  | tableLevel _ => false

end SqlColumn

/-- A table-level PRIMARY KEY moves behind the columns and ahead of the other constraints. -/
def reorder (columns : List SqlColumn) : List SqlColumn :=
  let tableLevel := columns.filter (!·.isNamed)
  if columns.any (·.isTablePrimaryKey) then
    columns.filter (·.isNamed) ++
      (tableLevel.filter (·.isTablePrimaryKey) ++ tableLevel.filter (!·.isTablePrimaryKey))
  else columns

/-- The loops that look for duplicates of the constraint `first`. A duplicate is deleted, and its
name goes to `first` if that has none so far. -/
def absorb {α : Type} (constraint? : α → Option SqlConstraint) (duplicate : SqlConstraint → Bool)
    (first : SqlConstraint) : List α → SqlConstraint × List α
  | [] => (first, [])
  | element :: rest =>
    match (constraint? element).filter duplicate with
    | some second =>
      absorb constraint? duplicate { first with name := first.name.or second.name } rest
    | none =>
      let (survivor, kept) := absorb constraint? duplicate first rest
      (survivor, element :: kept)

/-- Without a PRIMARY KEY the first UNIQUE constraint of a column stays. -/
def trimUnique : List SqlOptionalKeyword → List SqlOptionalKeyword
  | [] => []
  | none :: rest => none :: trimUnique rest
  | some first :: rest =>
    let (survivor, kept) := absorb id (·.isUnique) first rest
    some survivor :: kept

/-- The loop over the keywords of a column. A PRIMARY KEY stays wherever it stands. -/
def trimKeywords (keywords : List SqlOptionalKeyword) : List SqlOptionalKeyword :=
  match keywords.reduceOption.find? (!·.isUnique) with
  | none => trimUnique keywords
  | some primary =>
    let (survivor, kept) := absorb id (·.isUnique) primary keywords
    kept.map (Option.map fun _ => survivor)

/-- A table-level UNIQUE constraint with the column list of `first`. -/
def duplicateOf (first second : SqlConstraint) : Bool :=
  second.isUnique && first.definition = second.definition

/-- The constraint `first` under the first name that it or one of its duplicates has. -/
def SqlConstraint.inherit (first : SqlConstraint) (duplicates : List SqlConstraint) :
    SqlConstraint :=
  { first with name := (first :: duplicates).findSome? SqlConstraint.name }

theorem absorb_eq {α : Type} (constraint? : α → Option SqlConstraint)
    (duplicate : SqlConstraint → Bool) (first : SqlConstraint) (elements : List α) :
    absorb constraint? duplicate first elements =
      (first.inherit ((elements.filterMap constraint?).filter duplicate),
        elements.filter fun element => !(constraint? element).any duplicate) := by
  induction elements generalizing first with
  | nil =>
    obtain ⟨type, name, definition⟩ := first
    cases name <;> rfl
  | cons element rest ih =>
    cases found : constraint? element with
    | none => simp [absorb, found, ih]
    | some second =>
      cases same : duplicate second with
      | false => simp [absorb, found, same, ih, Option.filter]
      | true =>
        obtain ⟨type, name, definition⟩ := first
        cases name <;>
          simp [absorb, found, same, ih, Option.filter, inherit, findSome?_cons]

/-- The loop over all columns of the table. -/
def trimColumns : List SqlColumn → List SqlColumn
  | [] => []
  | .column columnName keywords :: rest =>
    .column columnName (trimKeywords keywords) :: trimColumns rest
  | .tableLevel none :: rest => .tableLevel none :: trimColumns rest
  | .tableLevel (some first) :: rest =>
    let trimmed := absorb SqlColumn.constraint? (duplicateOf first) first rest
    .tableLevel (some trimmed.1) :: trimColumns trimmed.2
termination_by columns => columns.length
decreasing_by
  · simp
  · simp
  · rw [absorb_eq]
    exact Nat.lt_succ_of_le (List.length_filter_le _ _)

/-- The reordering and the clean-up behind it, which has no result if it does not end. -/
def uniqueCleanup (columns : List SqlColumn) : Option (List SqlColumn) :=
  let columns := reorder columns
  if columns.any (·.isEndless) then none else some (trimColumns columns)

/-! ## What the clean-up is for -/

/-- The columns with a name, each with its column-level constraints. -/
def columnConstraints (columns : List SqlColumn) : List (String × List SqlConstraint) :=
  columns.filterMap fun
    | .column columnName keywords => some (columnName, keywords.reduceOption)
    | .tableLevel _ => none

/-- The constraints of the columns without a name. -/
def tableConstraints (columns : List SqlColumn) : List SqlConstraint :=
  columns.filterMap SqlColumn.constraint?

/-- The constraints are about the same set of columns. -/
def SameColumns (first second : SqlConstraint) : Prop :=
  ∀ column, column ∈ first.definition ↔ column ∈ second.definition

/-- The columns of a table as the earlier passes leave them. A column-level constraint has the
column itself for its column list, and the table has at most one PRIMARY KEY. -/
structure TableColumns where
  columns : List SqlColumn
  ownColumn : ∀ own ∈ columnConstraints columns, ∀ constraint ∈ own.2,
    constraint.definition = [own.1]
  onePrimaryKey : (((columnConstraints columns).flatMap Prod.snd ++ tableConstraints columns).filter
    (!·.isUnique)).length ≤ 1

/-- The constraints of one level before and after the clean-up. For each set of columns at most one
is left, and every constraint leaves one with its column list behind, a PRIMARY KEY for a PRIMARY
KEY. A survivor has the name of a constraint with its column list, and has one if any of them
had. -/
structure Trimmed (before after : List SqlConstraint) : Prop where
  onePerSet : after.Pairwise fun first second => ¬ SameColumns first second
  remains : ∀ constraint ∈ before, ∃ survivor ∈ after,
    survivor.definition = constraint.definition ∧
      (constraint.type = .primaryKey → survivor.type = .primaryKey)
  named : ∀ survivor ∈ after,
    (∃ constraint ∈ before, constraint.definition = survivor.definition ∧
      constraint.name = survivor.name) ∧
    ∀ constraint ∈ before, constraint.definition = survivor.definition →
      constraint.name.isSome → survivor.name.isSome

/-- The reordering is a permutation that keeps the order of the columns, the clean-up ends, and it
trims the constraints of every column and of the table. -/
def CleanedUp (table : TableColumns) : Prop :=
  (reorder table.columns).Perm table.columns ∧
    (reorder table.columns).filter (·.isNamed) = table.columns.filter (·.isNamed) ∧
    ∃ result, uniqueCleanup table.columns = some result ∧
      List.Forall₂ (fun before after => after.1 = before.1 ∧ Trimmed before.2 after.2)
        (columnConstraints table.columns) (columnConstraints result) ∧
      Trimmed (tableConstraints table.columns) (tableConstraints result)

/-! ## One constraint and its duplicates -/

section Level

variable {first : SqlConstraint} {rest before after : List SqlConstraint}

theorem inherit_named (first : SqlConstraint) (duplicates : List SqlConstraint) :
    (∃ constraint ∈ first :: duplicates, constraint.name = (first.inherit duplicates).name) ∧
      ∀ constraint ∈ first :: duplicates,
        constraint.name.isSome → (first.inherit duplicates).name.isSome := by
  cases found : (first.inherit duplicates).name with
  | none =>
    have unnamed := findSome?_eq_none_iff.mp found
    refine ⟨⟨first, mem_cons_self, unnamed first mem_cons_self⟩, ?_⟩
    intro constraint member isNamed
    rw [unnamed constraint member] at isNamed
    exact isNamed
  | some name => exact ⟨exists_of_findSome?_eq_some found, fun _ _ _ => rfl⟩

theorem Trimmed.nil : Trimmed [] [] :=
  ⟨.nil, by simp, by simp⟩

theorem Trimmed.perm (trimmed : Trimmed before after) {other : List SqlConstraint}
    (perm : before.Perm other) : Trimmed other after where
  onePerSet := trimmed.onePerSet
  remains := by simpa only [perm.mem_iff] using trimmed.remains
  named := by simpa only [perm.mem_iff] using trimmed.named

/-- The clean-up may treat `first` before all other constraints and go on with those that are not
duplicates of it. -/
theorem Trimmed.cons {duplicate : SqlConstraint → Bool}
    (unique : ∀ constraint ∈ rest, constraint.isUnique = true) (duplicates : ∀ constraint ∈ rest,
      duplicate constraint = decide (first.definition = constraint.definition))
    (sameLists : ∀ constraint ∈ rest,
      SameColumns first constraint → first.definition = constraint.definition)
    (trimmed : Trimmed (rest.filter (!duplicate ·)) after) :
    Trimmed (first :: rest) (first.inherit (rest.filter duplicate) :: after) := by
  have apart {survivor : SqlConstraint} (member : survivor ∈ after) :
      first.definition ≠ survivor.definition ∧ ¬ SameColumns first survivor := by
    obtain ⟨constraint, inOthers, sameList, -⟩ := (trimmed.named survivor member).1
    obtain ⟨inRest, other⟩ := mem_filter.mp inOthers
    rw [duplicates constraint inRest, Bool.not_eq_true', decide_eq_false_iff_not] at other
    rw [SameColumns, ← sameList]
    exact ⟨other, mt (sameLists constraint inRest) other⟩
  constructor
  case onePerSet =>
    exact pairwise_cons.mpr ⟨fun _ member => (apart member).2, trimmed.onePerSet⟩
  case remains =>
    intro constraint member
    by_cases same : first.definition = constraint.definition
    · refine ⟨_, mem_cons_self, same, ?_⟩
      grind [isUnique, inherit]
    · obtain ⟨survivor, inAfter, remains⟩ := trimmed.remains constraint (by grind)
      exact ⟨survivor, mem_cons_of_mem _ inAfter, remains⟩
  case named =>
    intro survivor member
    obtain rfl | inAfter := mem_cons.mp member
    · have sameList : (first.inherit (rest.filter duplicate)).definition = first.definition := rfl
      grind [inherit_named first (rest.filter duplicate)]
    · grind [trimmed.named survivor inAfter]

/-- In a column all constraints but `first` are duplicates of it. -/
theorem trimmed_own {columnName : String}
    (own : ∀ constraint ∈ first :: rest, constraint.definition = [columnName])
    (unique : ∀ constraint ∈ rest, constraint.isUnique = true) :
    Trimmed (first :: rest) [first.inherit (rest.filter (·.isUnique))] := by
  have same : ∀ constraint ∈ rest, first.definition = constraint.definition := by grind
  refine Trimmed.cons unique (by grind) (fun constraint member _ => same constraint member) ?_
  rw [filter_eq_nil_iff.mpr (by simpa using unique)]
  exact .nil

end Level

/-- Deleting elements by a test on what they are seen as. -/
theorem filterMap_filter_eq {α β : Type} {view : α → Option β} {test : α → Bool} {holds : β → Bool}
    (agree : ∀ element value, view element = some value → test element = holds value)
    (elements : List α) :
    (elements.filter test).filterMap view = (elements.filterMap view).filter holds := by
  rw [filterMap_filter, filter_filterMap]
  refine filterMap_congr fun element _ => ?_
  cases found : view element with
  | none => simp
  | some value => simp [agree element value found, Option.filter]

theorem constraints_absorb {α : Type} (constraint? : α → Option SqlConstraint)
    (duplicate : SqlConstraint → Bool) (elements : List α) :
    (elements.filter fun element => !(constraint? element).any duplicate).filterMap constraint? =
      (elements.filterMap constraint?).filter (!duplicate ·) :=
  filterMap_filter_eq (fun _ _ found => by simp [found]) elements

/-! ## The columns -/

section Column

variable {columnName : String} {keywords : List SqlOptionalKeyword}
  (own : ∀ constraint ∈ keywords.reduceOption, constraint.definition = [columnName])

include own

theorem trimUnique_trimmed
    (unique : ∀ constraint ∈ keywords.reduceOption, constraint.isUnique = true) :
    Trimmed keywords.reduceOption (trimUnique keywords).reduceOption := by
  induction keywords with
  | nil => exact .nil
  | cons keyword rest ih =>
    cases keyword with
    | none => exact ih own unique
    | some first =>
      have uniqueRest := (forall_mem_cons.mp unique).2
      have others : rest.reduceOption.filter (!·.isUnique) = [] :=
        filter_eq_nil_iff.mpr fun constraint member => by simp [uniqueRest constraint member]
      have left := (constraints_absorb _ _ rest).trans others
      rw [trimUnique, absorb_eq]
      exact (congrArg (Trimmed _ <| _ :: ·) left).mpr (trimmed_own own uniqueRest)

theorem trimKeywords_trimmed
    (onePrimaryKey : (keywords.reduceOption.filter (!·.isUnique)).length ≤ 1) :
    Trimmed keywords.reduceOption (trimKeywords keywords).reduceOption := by
  rw [trimKeywords]
  cases found : keywords.reduceOption.find? (!·.isUnique) with
  | none => exact trimUnique_trimmed own (by simpa using find?_eq_none.mp found)
  | some primary =>
    have onlyPrimary : keywords.reduceOption.filter (!·.isUnique) = [primary] := by
      obtain ⟨tail, split⟩ := head?_eq_some_iff.mp (head?_filter.trans found)
      rw [split] at onePrimaryKey ⊢
      rw [eq_nil_of_length_eq_zero (Nat.le_zero.mp (Nat.le_of_succ_le_succ onePrimaryKey))]
    have perm := filter_append_perm (!·.isUnique) keywords.reduceOption
    simp only [onlyPrimary, Bool.not_not] at perm
    have trimmed := trimmed_own (fun constraint member => own constraint (perm.mem_iff.mp member))
      fun constraint member => (mem_filter.mp member).2
    have left := (constraints_absorb _ _ keywords).trans onlyPrimary
    simp only [absorb_eq, reduceOption_map]
    rw [show (keywords.filter _).reduceOption = _ from left]
    simpa [reduceOption] using trimmed.perm perm

end Column

/-! ## The table -/

section Table

variable {columns : List SqlColumn}

theorem columnConstraints_filter (test : SqlColumn → Bool)
    (named : ∀ columnName keywords, test (.column columnName keywords) = true) :
    columnConstraints (columns.filter test) = columnConstraints columns := by
  rw [← filter_true (columnConstraints columns)]
  refine filterMap_filter_eq (fun column own found => ?_) columns
  cases column with
  | column columnName keywords => exact named columnName keywords
  | tableLevel => cases found

/-- The loop over the columns, from any table in which only the first table-level constraint may be
a PRIMARY KEY. -/
theorem trimColumns_trimmed
    (ordered : (tableConstraints columns).Pairwise fun first second => second.isUnique = true ∧
      (SameColumns first second → first.definition = second.definition))
    (trims : ∀ columnName keywords, .column columnName keywords ∈ columns →
      Trimmed keywords.reduceOption (trimKeywords keywords).reduceOption) :
    Forall₂ (fun before after => after.1 = before.1 ∧ Trimmed before.2 after.2)
        (columnConstraints columns) (columnConstraints (trimColumns columns)) ∧
      Trimmed (tableConstraints columns) (tableConstraints (trimColumns columns)) := by
  induction columns using trimColumns.induct with
  | case1 =>
    rw [trimColumns]
    exact ⟨.nil, .nil⟩
  | case2 columnName keywords rest ih =>
    obtain ⟨columnLevel, tableLevel⟩ := ih ordered
      fun columnName keywords member => trims columnName keywords (mem_cons_of_mem _ member)
    rw [trimColumns]
    exact ⟨.cons ⟨rfl, trims columnName keywords mem_cons_self⟩ columnLevel, tableLevel⟩
  | case3 rest ih =>
    rw [trimColumns]
    exact ih ordered
      fun columnName keywords member => trims columnName keywords (mem_cons_of_mem _ member)
  | case4 first rest absorbed ih =>
    obtain ⟨before, ordered⟩ := pairwise_cons.mp ordered
    have unique := fun constraint member => (before constraint member).1
    simp only [absorbed, absorb_eq, tableConstraints, constraints_absorb] at ih
    obtain ⟨columnLevel, tableLevel⟩ := ih (ordered.filter _)
      fun columnName keywords member => trims columnName keywords
        (mem_cons_of_mem _ (mem_of_mem_filter member))
    rw [columnConstraints_filter _ fun _ _ => rfl] at columnLevel
    rw [trimColumns, absorb_eq]
    refine ⟨columnLevel, Trimmed.cons unique (fun constraint member => ?_)
      (fun constraint member => (before constraint member).2) tableLevel⟩
    simp [duplicateOf, unique constraint member]

theorem reorder_perm (columns : List SqlColumn) : (reorder columns).Perm columns := by
  rw [reorder]
  split
  · exact ((filter_append_perm _ _).append_left _).trans (filter_append_perm _ _)
  · exact .refl _

theorem filter_isNamed_reorder (columns : List SqlColumn) :
    (reorder columns).filter (·.isNamed) = columns.filter (·.isNamed) := by
  rw [reorder]
  split
  · simp +contextual [filter_append, filter_filter]
  · rfl

/-- Only the first table-level constraint of the reordered table may be a PRIMARY KEY. -/
theorem tableConstraints_reorder
    (onePrimaryKey : ((tableConstraints columns).filter (!·.isUnique)).length ≤ 1) :
    (tableConstraints (reorder columns)).Pairwise fun _ second => second.isUnique = true := by
  have view {test : SqlColumn → Bool} (holds : SqlConstraint → Bool)
      (agree : ∀ constraint, test (.tableLevel (some constraint)) = holds constraint) :
      (columns.filter test).filterMap constraint? =
        (tableConstraints columns).filter holds := by
    refine filterMap_filter_eq (fun column constraint found => ?_) _
    cases column with
    | column => cases found
    | tableLevel keyword =>
      cases found
      exact agree constraint
  have single {primaries : List SqlConstraint} (short : primaries.length ≤ 1) :
      primaries.Pairwise fun _ second => second.isUnique = true := by
    match primaries, short with
    | [], _ => exact .nil
    | [_], _ => exact pairwise_singleton _ _
  rw [reorder]
  split
  · simp only [tableConstraints, filterMap_append, filter_filter]
    rw [view fun _ => false, view (!·.isUnique), view (·.isUnique), filter_false,
      nil_append, pairwise_append]
    · refine ⟨single onePrimaryKey, pairwise_of_forall_mem_list ?_, ?_⟩
      · exact fun _ _ _ member => (mem_filter.mp member).2
      · exact fun _ _ _ member => (mem_filter.mp member).2
    all_goals
      intro constraint
      simp [isNamed, isTablePrimaryKey, constraint?]
  · rename_i noPrimary
    refine pairwise_of_forall_mem_list fun _ _ constraint member => ?_
    obtain ⟨column, inTable, isConstraint⟩ := mem_filterMap.mp member
    rw [any_eq_true] at noPrimary
    by_contra isPrimary
    exact noPrimary ⟨column, inTable, by
      simpa [isTablePrimaryKey, isConstraint] using isPrimary⟩

end Table

/-- The clean-up does its work for exactly the tables in which no column has a UNIQUE in front of
its PRIMARY KEY as the first keyword, and no two table-level constraints have the same columns in a
different order. -/
theorem cleanedUp_iff (table : TableColumns) :
    CleanedUp table ↔ (∀ column ∈ table.columns, column.isEndless = false) ∧
      ∀ first ∈ tableConstraints table.columns, ∀ second ∈ tableConstraints table.columns,
        SameColumns first second → first.definition = second.definition := by
  have perm := reorder_perm table.columns
  have ends_iff : (reorder table.columns).any (·.isEndless) = false ↔
      ∀ column ∈ table.columns, column.isEndless = false := by
    simp [perm.mem_iff]
  rw [← ends_iff]
  constructor
  · rintro ⟨-, -, result, ran, -, trimmed⟩
    constructor
    · rw [← Bool.not_eq_true]
      intro endless
      rw [uniqueCleanup, if_pos endless] at ran
      cases ran
    · intro first inFirst second inSecond same
      obtain ⟨firstLeft, leftFirst, firstList, -⟩ := trimmed.remains first inFirst
      obtain ⟨secondLeft, leftSecond, secondList, -⟩ := trimmed.remains second inSecond
      by_contra other
      have : Std.Symm fun first second => ¬ SameColumns first second :=
        ⟨fun _ _ apart same => apart fun column => (same column).symm⟩
      refine trimmed.onePerSet.forall leftFirst leftSecond (fun equal => other ?_) fun column => ?_
      · rw [← firstList, equal, secondList]
      · rw [firstList, secondList]
        exact same column
  · rintro ⟨ends, sameLists⟩
    have tablePerm := perm.filterMap SqlColumn.constraint?
    have short := Nat.le_trans ((sublist_append_right _ _).filter _).length_le
      table.onePrimaryKey
    have ordered := (tableConstraints_reorder short).and (pairwise_of_forall_mem_list
      fun first inFirst second inSecond => sameLists first (tablePerm.mem_iff.mp inFirst) second
        (tablePerm.mem_iff.mp inSecond))
    obtain ⟨columnLevel, tableLevel⟩ := trimColumns_trimmed ordered
      fun columnName keywords member => by
        have isOwn : (columnName, keywords.reduceOption) ∈ columnConstraints table.columns :=
          mem_filterMap.mpr ⟨_, perm.mem_iff.mp member, rfl⟩
        refine trimKeywords_trimmed (table.ownColumn _ isOwn) ?_
        refine Nat.le_trans (List.Sublist.length_le (.filter _ ?_)) table.onePrimaryKey
        refine .trans ?_ (sublist_append_left _ _)
        exact sublist_flatten_of_mem (mem_map.mpr ⟨_, isOwn, rfl⟩)
    rw [← columnConstraints_filter (·.isNamed) fun _ _ => rfl, filter_isNamed_reorder,
      columnConstraints_filter _ fun _ _ => rfl] at columnLevel
    refine ⟨perm, filter_isNamed_reorder _, _, ?_, columnLevel, tableLevel.perm tablePerm⟩
    rw [uniqueCleanup, if_neg (by simp [ends])]

/-- `CREATE TABLE t (id INTEGER UNIQUE PRIMARY KEY)`. -/
def uniquePrimaryKey : TableColumns where
  columns := [.column "id" [some ⟨.unique, none, ["id"]⟩, some ⟨.primaryKey, none, ["id"]⟩, none]]
  ownColumn := by decide
  onePrimaryKey := by decide

theorem uniquePrimaryKey_not_cleanedUp : ¬ CleanedUp uniquePrimaryKey := by
  rintro ⟨-, -, result, ran, -⟩
  cases ran

end Octo.Parser.UniqueCleanup
