import Octo.Dml.InsertColumnList
import Octo.Dml.UniqueGlobals

/-!
# When both forms of an INSERT agree

An INSERT that names all columns in their order should do what the same INSERT without the list
does. `check_eq_iff` says when both are checked alike. `forall_insertRow_eq_iff` says that a row is
inserted alike whatever the CHECK constraints of the table are if and only if its columns are
computed alike, which they are if the conversions that the form with the list leaves out would not
change anything.
-/
namespace Octo.Dml

open Sweep List InsertStatement Option

variable {columns : List Column} {column : Column}

/-! ## The checks of both forms -/

section Checks

variable {target : InsertTarget} {overriding : Option Overriding} {types : List SqlValueType}

/-- The error is about the first column that rejects a value. -/
theorem checkIdentity_eq_find? :
    checkIdentity target overriding columns =
      (columns.find? (target.rejects overriding)).elim (.ok ()) fun column =>
        .error (.insertOnGeneratedAlwaysIdentity (target.info column).columnName) := by
  induction columns with
  | nil => rfl
  | cons column rest ih =>
    rw [checkIdentity, find?_cons, ih]
    cases target.rejects overriding column <;> rfl

theorem checkIdentity_eq_ok
    (accepted : ∀ column ∈ columns, target.rejects overriding column = false) :
    checkIdentity target overriding columns = .ok () := by
  rw [checkIdentity_eq_find?, find?_eq_none.mpr (by simpa using accepted)]
  rfl

/-- The columns behind one that rejects values are not reached. -/
theorem checkIdentity_append (member : column ∈ columns)
    (rejects : target.rejects overriding column = true) (others : List Column) :
    ∃ rejecting, checkIdentity target overriding columns =
        .error (.insertOnGeneratedAlwaysIdentity rejecting) ∧
      checkIdentity target overriding (columns ++ others) =
        .error (.insertOnGeneratedAlwaysIdentity rejecting) := by
  obtain ⟨first, found⟩ := isSome_iff_exists.mp (find?_isSome.mpr ⟨column, member, rejects⟩)
  refine ⟨(target.info first).columnName, ?_, ?_⟩
  · rw [checkIdentity_eq_find?, found]
    rfl
  · rw [checkIdentity_eq_find?, find?_append, found]
    rfl

theorem checkCounts_eq :
    checkCounts columns types =
      if types.length < columns.length then .error .insertTooManyColumns
      else if columns.length < types.length then .error .insertTooManyExpressions
      else .ok () := by
  induction columns generalizing types with
  | nil =>
    cases types with
    | nil => rfl
    | cons type types => simp [checkCounts]
  | cons column columns ih =>
    cases types with
    | nil => simp [checkCounts]
    | cons type types => simp [checkCounts, ih]

theorem mem_of_typeMismatchCla {type : SqlValueType}
    (mismatch : typeMismatchCla target columns types = some (column, type)) : column ∈ columns := by
  induction columns generalizing types with
  | nil => cases mismatch
  | cons first rest ih =>
    cases types with
    | nil => cases mismatch
    | cons other types =>
      rw [typeMismatchCla] at mismatch
      split at mismatch
      case isTrue =>
        obtain ⟨rfl, -⟩ := Prod.mk.inj (some.inj mismatch)
        exact mem_cons_self ..
      case isFalse => exact mem_cons_of_mem _ (ih mismatch)

end Checks

/-- The statement that names all columns that a user sees, in their order. -/
def InsertTarget.withList (target : InsertTarget) (overriding : Option Overriding)
    (types : List SqlValueType) : InsertStatement :=
  ⟨some target.table.columns, overriding, types⟩

open InsertTarget

/-- The statement without a list. -/
def InsertTarget.withoutList (_target : InsertTarget) (overriding : Option Overriding)
    (types : List SqlValueType) : InsertStatement :=
  ⟨none, overriding, types⟩

section Forms

variable (target : InsertTarget) (overriding : Option Overriding) (types : List SqlValueType)

/-- When both forms are checked alike: one of the columns that get a value rejects it, or there are
more expressions than columns, or there are as many and no other column than the first one is the
first with a wrong type. -/
def ChecksAlike : Prop :=
  (∃ column ∈ target.table.columns.take types.length, target.rejects overriding column = true) ∨
    target.table.columns.length < types.length ∨
    (types.length = target.table.columns.length ∧
      ∀ column type, typeMismatchCla target target.table.columns types = some (column, type) →
        target.table.columns.head? = some column)

theorem check_eq_of_rejects (member : column ∈ target.table.columns.take types.length)
    (rejects : target.rejects overriding column = true) :
    (target.withList overriding types).check target =
      (target.withoutList overriding types).check target := by
  obtain ⟨rejecting, inTaken, inAll⟩ := checkIdentity_append member rejects
    (target.table.columns.drop types.length)
  rw [take_append_drop] at inAll
  simp only [check, withList, withoutList, inTaken, inAll]

theorem checkColumnListsForTypeMatch_eq_iff
    (sameLength : types.length = target.table.columns.length) :
    checkColumnListsForTypeMatch target true target.table.columns types =
        checkColumnListsForTypeMatch target false target.table.columns types ↔
      ∀ column type, typeMismatchCla target target.table.columns types = some (column, type) →
        target.table.columns.head? = some column := by
  have enough : ¬target.table.columns.length < types.length := by omega
  simp only [checkColumnListsForTypeMatch, Bool.not_true, Bool.not_false, Bool.false_and,
    Bool.true_and, decide_eq_true_eq, Bool.false_eq_true, if_false, if_neg enough]
  cases mismatch : typeMismatchCla target target.table.columns types with
  | none => simp
  | some found =>
    obtain ⟨column, type⟩ := found
    have member := mem_of_typeMismatchCla mismatch
    obtain ⟨first, rest, isSplit⟩ := exists_cons_of_ne_nil (ne_nil_of_mem member)
    have isFirst : first ∈ target.table.columns := by
      rw [isSplit]
      exact mem_cons_self ..
    simp only [isSplit, head?_cons, some_inj, Prod.mk.injEq,
      Except.error.injEq, InsertError.insertTypeMismatch.injEq, and_true]
    constructor
    · rintro ⟨sameName, -⟩ _ _ ⟨rfl, -⟩
      exact target.columnName_inj first isFirst column member sameName
    · intro sameColumn
      obtain rfl := sameColumn column type ⟨rfl, rfl⟩
      exact ⟨rfl, rfl⟩

/-- The check of the types reports nothing about identity columns or too many columns. -/
theorem checkColumnListsForTypeMatch_ne {hasList : Bool} :
    checkColumnListsForTypeMatch target hasList columns types ≠ .error .insertTooManyColumns ∧
      ∀ name, checkColumnListsForTypeMatch target hasList columns types ≠
        .error (.insertOnGeneratedAlwaysIdentity name) := by
  unfold checkColumnListsForTypeMatch
  cases typeMismatchCla target columns types <;> constructor <;> intros <;> split <;> simp

theorem check_eq_iff :
    (target.withList overriding types).check target =
        (target.withoutList overriding types).check target ↔
      ChecksAlike target overriding types := by
  by_cases rejects : ∃ column ∈ target.table.columns.take types.length,
      target.rejects overriding column = true
  · obtain ⟨column, member, isRejected⟩ := rejects
    exact iff_of_true (check_eq_of_rejects target overriding types member isRejected)
      (.inl ⟨column, member, isRejected⟩)
  · have accepted : ∀ column ∈ target.table.columns.take types.length,
        target.rejects overriding column = false := by simpa using rejects
    rw [ChecksAlike, or_iff_right rejects]
    simp only [check, withList, withoutList, checkIdentity_eq_ok accepted, checkCounts_eq]
    rcases Nat.lt_trichotomy types.length target.table.columns.length with fewer | same | more
    · -- The form with a list fails, because of a column that the other one leaves out.
      have notMore : ¬target.table.columns.length < types.length := by omega
      have notSame : types.length ≠ target.table.columns.length := by omega
      refine iff_of_false (fun same => ?_) (by simp [notMore, notSame])
      rw [if_pos fewer] at same
      obtain ⟨notCounts, notIdentity⟩ := checkColumnListsForTypeMatch_ne target types
      by_cases later : ∀ column ∈ target.table.columns, target.rejects overriding column = false
      · rw [checkIdentity_eq_ok later] at same
        exact notCounts same.symm
      · push Not at later
        obtain ⟨column, member, isRejected⟩ := later
        obtain ⟨rejecting, fails, -⟩ :=
          checkIdentity_append member (by simpa using isRejected) []
        rw [fails] at same
        exact notIdentity rejecting same.symm
    · rw [take_of_length_le (by omega)] at accepted
      have notFewer : ¬types.length < target.table.columns.length := by omega
      have notMore : ¬target.table.columns.length < types.length := by omega
      rw [checkIdentity_eq_ok accepted, or_iff_right notMore, and_iff_right same,
        ← checkColumnListsForTypeMatch_eq_iff target types same]
      simp only [if_neg notFewer, if_neg notMore]
    · rw [take_of_length_le (by omega)] at accepted
      have notFewer : ¬types.length < target.table.columns.length := by omega
      refine iff_of_true ?_ (.inl more)
      simp [checkIdentity_eq_ok accepted, checkColumnListsForTypeMatch, notFewer, more]

end Forms

/-! ## Rows that are computed alike -/

section Rows

variable {Text Node : Type}

/-- A table with other CHECK constraints. -/
def TableDefinition.withChecks (table : TableDefinition Text Node)
    (checks : List (CheckConstraint Text)) : TableDefinition Text Node :=
  { table with checks := checks }

variable {table : TableDefinition Text Node} {first second : SourceRow Text}
  {values : ColumnValues Text} {source : SourceRow Text}

theorem assignedValues_withChecks (checks : List (CheckConstraint Text)) (row : Row Text)
    (assignments : List (Assignment Text)) :
    assignedValues (table.withChecks checks) row assignments =
      assignedValues table row assignments := by
  induction assignments with
  | nil => rfl
  | cons assignment rest ih =>
    rw [assignedValues, ih]
    rfl

theorem insertedValues_withChecks (checks : List (CheckConstraint Text)) (source : SourceRow Text) :
    insertedValues (table.withChecks checks) source = insertedValues table source :=
  assignedValues_withChecks checks _ _

/-- The values of a row are those of its source, in the order of the columns. -/
theorem map_source_of_assignedValues {row : Row Text}
    (evaluated : assignedValues table row (columns.map fun column =>
      ⟨column, fun _ => source column⟩) =
      .ok values) :
    values = columns.map (fun column => (column, (source column).toOption.join)) ∧
      ∀ column ∈ columns, ∃ value, source column = .ok value := by
  induction columns generalizing values with
  | nil =>
    cases evaluated
    simp
  | cons column rest ih =>
    obtain ⟨value, others, found, -, evaluatedRest, rfl⟩ := assignedValues_cons_eq_ok evaluated
    obtain ⟨rfl, areFound⟩ := ih evaluatedRest
    dsimp only at found
    refine ⟨by simp [found, Except.toOption], ?_⟩
    rw [forall_mem_cons]
    exact ⟨⟨value, found⟩, areFound⟩

/-- The error that a value of a column ends a row with. -/
def valueError (column : Column) (isNotNull : Bool) :
    Except String (Option Text) → Option (DmlError Text)
  | .error message => some (.expression message)
  | .ok value => if value.isNone && isNotNull then some (.nullColValue column) else none

theorem valueError_eq_some {isNotNull : Bool} {outcome : Except String (Option Text)}
    {error : DmlError Text} (fails : valueError column isNotNull outcome = some error) :
    (∃ message, outcome = .error message ∧ error = .expression message) ∨
      error = .nullColValue column := by
  cases outcome with
  | error message => exact .inl ⟨message, rfl, (some.inj fails).symm⟩
  | ok value =>
    rw [valueError] at fails
    split_ifs at fails
    exact .inr (some.inj fails).symm

/-- The error of a row is that of the first column that has one. -/
theorem assignedValues_eq_error_iff {row : Row Text} {error : DmlError Text} :
    assignedValues table row (columns.map fun column => ⟨column, fun _ => source column⟩) =
        .error error ↔
      columns.findSome? (fun column =>
        valueError column (table.isNotNull column) (source column)) = some error := by
  induction columns with
  | nil => simp [assignedValues]
  | cons column rest ih =>
    rw [map_cons, assignedValues, findSome?_cons]
    dsimp only
    cases source column with
    | error message => simp [valueError]
    | ok value =>
      by_cases isNull : (value.isNone && table.isNotNull column) = true
      · simp only [valueError, if_pos isNull, Except.error.injEq, some_inj]
      · have passes : valueError column (table.isNotNull column) (.ok value) = none := if_neg isNull
        rw [passes, ← ih]
        dsimp only
        rw [if_neg isNull]
        cases assignedValues table row _ <;> simp

/-- Two sources give the same values if and only if they fail alike or agree on all columns. -/
theorem insertedValues_eq_iff :
    insertedValues table first = insertedValues table second ↔
      (∃ error, insertedValues table first = .error error ∧
        insertedValues table second = .error error) ∨
      ∀ column ∈ table.columns, first column = second column := by
  constructor
  · intro same
    cases evaluated : insertedValues table first with
    | error error => exact .inl ⟨error, rfl, same ▸ evaluated⟩
    | ok values =>
      right
      obtain ⟨isFirst, firstFound⟩ := map_source_of_assignedValues evaluated
      obtain ⟨isSecond, secondFound⟩ := map_source_of_assignedValues (same ▸ evaluated)
      intro column member
      obtain ⟨value, found⟩ := firstFound column member
      obtain ⟨other, otherFound⟩ := secondFound column member
      have sameValue := map_inj_left.mp (isFirst.symm.trans isSecond) column member
      simp only [found, otherFound, Except.toOption, join_some, Prod.mk.injEq,
        true_and] at sameValue
      rw [found, otherFound, sameValue]
  · rintro (⟨error, firstFails, secondFails⟩ | agree)
    · rw [firstFails, secondFails]
    · unfold insertedValues
      congr 1
      apply map_congr_left
      intro column member
      rw [agree column member]

variable [LinearOrder Text] [OrderBot Text]

/-- A row has the values that it was given. -/
theorem value_insertedRow (evaluated : insertedValues table source = .ok values) (number : Nat)
    (member : column ∈ table.columns) :
    .ok ((table.insertedRow number values).value column) = source column := by
  obtain ⟨isValues, areFound⟩ := map_source_of_assignedValues evaluated
  obtain ⟨value, found⟩ := areFound column member
  have nodup : (values.map Prod.fst).Nodup := by
    rw [isValues]
    simpa [Function.comp_def] using table.columns_nodup
  have isThere : (column, value) ∈ values := by
    rw [isValues]
    exact mem_map.mpr ⟨column, member, by simp [found, Except.toOption]⟩
  have lookup : values.value column = value := by
    rw [ColumnValues.value, values.lookup_of_mem nodup isThere]
    rfl
  have inTable := (table.mem_columns column).mp member
  rw [found]
  cases column with
  | key index =>
    obtain ⟨visible, inside⟩ := inTable
    obtain ⟨text, isText⟩ := isSome_iff_exists.mp
      (isSome_of_assignedValues evaluated _ isThere rfl)
    dsimp only at isText
    simp [TableDefinition.insertedRow, Row.value, visible, inside, lookup, isText,
      colvalue2piecevalue]
  | cell index => simp [TableDefinition.insertedRow, Row.value, inTable, lookup]

theorem insertRow_congr (same : insertedValues table first = insertedValues table second)
    (state : InsertState Text Node) :
    insertRow table first state = insertRow table second state := by
  unfold insertRow
  rw [same]

/-- A CHECK constraint that only the given row violates. -/
def rejecting (table : TableDefinition Text Node) (row : Row Text) (name : String) :
    CheckConstraint Text where
  name := name
  columns := table.columns
  condition := fun read =>
    if ∀ column ∈ table.columns, read column = row.value column then .false else .true

section Evaluated

variable {values : ColumnValues Text} (evaluated : insertedValues table first = .ok values)
  (state : InsertState Text Node)
include evaluated

/-- The CHECK constraints are checked before the row is stored. -/
theorem insertRow_withChecks (checks : List (CheckConstraint Text)) :
    insertRow (table.withChecks checks) first state =
      let row := table.insertedRow (table.nextNumber state.store) values
      match checkConstraints (fun _ => true) row.value row checks with
      | .error error => .error error
      | .ok () => insertRow (table.withChecks []) first state := by
  simp only [insertRow, insertedValues_withChecks, evaluated]
  rfl

/-- The row violates the constraint that rejects it. -/
theorem insertRow_rejecting (name : String) :
    let row := table.insertedRow (table.nextNumber state.store) values
    insertRow (table.withChecks [rejecting table row name]) first state =
      .error (.checkConstraintViolation name row) := by
  dsimp only
  rw [insertRow_withChecks evaluated]
  simp [checkConstraints, rejecting]

/-- What happens to a row that does not violate a constraint does not depend on its name. -/
theorem insertRow_rejecting_of_ne {row : Row Text} (differs : ¬∀ column ∈ table.columns,
      (table.insertedRow (table.nextNumber state.store) values).value column = row.value column)
    (name : String) :
    insertRow (table.withChecks [rejecting table row name]) first state =
      insertRow (table.withChecks []) first state := by
  rw [insertRow_withChecks evaluated]
  simp [checkConstraints, rejecting, differs]

/-- The result for the row depends on the name of the constraint that rejects it. -/
theorem not_forall_insertRow_rejecting_eq
    (result : Except (DmlError Text) (InsertState Text Node)) :
    ¬∀ name, insertRow (table.withChecks [rejecting table
      (table.insertedRow (table.nextNumber state.store) values) name]) first state = result := by
  intro fixed
  have violatesOne := (insertRow_rejecting evaluated state "one").symm.trans (fixed "one")
  have violatesOther := (insertRow_rejecting evaluated state "other").symm.trans (fixed "other")
  have names := (DmlError.checkConstraintViolation.inj
    (Except.error.inj (violatesOne.trans violatesOther.symm))).1
  exact absurd names (by decide)

end Evaluated

theorem insertRow_eq_error {error : DmlError Text}
    (fails : insertedValues table first = .error error) (state : InsertState Text Node)
    (checks : List (CheckConstraint Text)) :
    insertRow (table.withChecks checks) first state = .error error := by
  simp only [insertRow, insertedValues_withChecks, fails]

/-- A row is inserted alike into all tables with these columns if and only if its values are
computed alike. -/
theorem forall_insertRow_eq_iff (state : InsertState Text Node) :
    (∀ checks, insertRow (table.withChecks checks) first state =
      insertRow (table.withChecks checks) second state) ↔
      insertedValues table first = insertedValues table second := by
  constructor
  · intro alike
    cases firstValues : insertedValues table first with
    | error error =>
      cases secondValues : insertedValues table second with
      | error other =>
        have sameError := (insertRow_eq_error firstValues state []).symm.trans
          ((alike []).trans (insertRow_eq_error secondValues state []))
        rw [Except.error.inj sameError]
      | ok values =>
        refine (not_forall_insertRow_rejecting_eq secondValues state (.error error) ?_).elim
        intro name
        rw [← alike, insertRow_eq_error firstValues]
    | ok values =>
      cases secondValues : insertedValues table second with
      | error other =>
        refine (not_forall_insertRow_rejecting_eq firstValues state (.error other) ?_).elim
        intro name
        rw [alike, insertRow_eq_error secondValues]
      | ok others =>
        by_cases same : ∀ column ∈ table.columns,
            (table.insertedRow (table.nextNumber state.store) others).value column =
              (table.insertedRow (table.nextNumber state.store) values).value column
        · rw [← firstValues, ← secondValues, insertedValues_eq_iff]
          right
          intro column member
          rw [← value_insertedRow firstValues _ member, ← value_insertedRow secondValues _ member,
            same column member]
        · refine (not_forall_insertRow_rejecting_eq firstValues state
            (insertRow (table.withChecks []) second state) ?_).elim
          intro name
          rw [alike, insertRow_rejecting_of_ne secondValues state same]
  · intro same checks
    apply insertRow_congr
    rw [insertedValues_withChecks, insertedValues_withChecks, same]

end Rows

/-! ## The columns of both forms -/

section

variable (nodup : columns.Nodup) {position : Nat} (found : columns[position]? = some column)
include nodup found

theorem lookup_walkColumns (start : Nat) (types : List SqlValueType) :
    (walkColumns start columns types).lookup column =
      some (types[position]?.map fun type => (start + position, type)) := by
  induction columns generalizing position start types with
  | nil => cases found
  | cons first rest ih =>
    obtain ⟨notLater, restNodup⟩ := nodup_cons.mp nodup
    cases position with
    | zero =>
      obtain rfl : first = column := by simpa using found
      cases types <;> simp [walkColumns]
    | succ position =>
      have later : rest[position]? = some column := by simpa using found
      have differs : (column == first) = false := by
        rw [beq_eq_false_iff_ne]
        rintro rfl
        exact notLater (mem_of_getElem? later)
      cases types with
      | nil => simpa [walkColumns, lookup_cons, differs] using ih restNodup later start []
      | cons type types =>
        have inRest := ih restNodup later (start + 1) types
        simp only [walkColumns, lookup_cons, differs, inRest, getElem?_cons_succ,
          Nat.add_assoc, Nat.add_comm 1]

theorem lookup_walkList :
    (walkList columns columns).lookup column = some (some (position, .unknown)) := by
  have lookup : ∀ list : List Column, column ∈ list → (walkList columns list).lookup column =
      some (if column ∈ columns then some (columns.idxOf column, .unknown) else none) := by
    intro list member
    induction list with
    | nil => cases member
    | cons first rest ih =>
      by_cases same : column = first
      · subst same
        simp [walkList]
      · have differs : (column == first) = false := by simpa using same
        simpa [walkList, lookup_cons, differs] using
          ih ((mem_cons.mp member).resolve_left same)
  obtain ⟨inside, rfl⟩ := List.getElem?_eq_some_iff.mp found
  rw [lookup columns (getElem_mem inside), if_pos (getElem_mem inside),
    nodup.idxOf_getElem position inside]

end

/-! ## Values that both forms treat alike -/

section Conversions

variable (toUnixTime : DateTimeFormat → SqlDataType → MString → Except String (Option MString))
  (type : SqlDataTypeStruct) (source : SqlValueType)

/-- A value that the conversions selected by the source type leave as it is: a number in canonical
form, for a whole number that is rounded, and a text that is the internal format of its own date. -/
def Keeps : Option MString → Prop
  | none => True
  | some text =>
    match type.dataType with
    | .numeric => type.sizeOrPrecision = none →
        source = .numericLiteral ∨ source = .integerLiteral → plus text = text
    | .string | .nul | .boolean => True
    | _ => (source = .numericLiteral → fnumber text 0 = text) ∧
        (source = .integerLiteral → plus text = text) ∧
        (source = .stringLiteral → type.dataType.isDateTime = true →
          ∃ internal, toUnixTime type.format type.dataType text = .ok (some internal) ∧
            plus internal = text)

/-- A value that the column rejects in both forms: NULL if it is NOT NULL, a number with too many
digits, a text that is too long. -/
def RejectsValue (isNotNull : Bool) : Option MString → Prop
  | none => isNotNull = true
  | some text =>
    match type.dataType, type.sizeOrPrecision with
    | .numeric, some precision => 10 ^ (precision - type.scale.getD 0) ≤
        ((MNumber.ofText text).round (type.scale.getD 0)).whole
    | .string, some size =>
      ¬text.letters.length ≤ size ∧ ¬(text.letters.drop size).all (· == ' ') = true
    | _, _ => False

/-- A text that is not a date or a time for the form without a list. -/
def RejectsDate (isNotNull : Bool) (value : Option MString) : Prop :=
  source = .stringLiteral ∧ type.dataType.isDateTime = true ∧ ∃ text, value = some text ∧
    ((∃ message, toUnixTime type.format type.dataType text = .error message) ∨
      toUnixTime type.format type.dataType text = .ok none ∧ isNotNull = true)

/-- The messages about dates and times are not those about numbers and texts. -/
def MessagesApart : Prop :=
  ∀ format dataType text message, toUnixTime format dataType text = .error message →
    ∀ (type : SqlDataTypeStruct) value, convert toUnixTime type .unknown value ≠ .error message

variable {toUnixTime type source} {value : Option MString} {isNotNull : Bool}
  {error : DmlError MString}

theorem map_plus_eq_iff {read : Except String (Option MString)} {text : MString} :
    read.map (Option.map plus) = .ok (some text) ↔
      ∃ internal, read = .ok (some internal) ∧ plus internal = text := by
  cases read with
  | error message => simp [Except.map]
  | ok read => simp [Except.map]

theorem convert_eq_iff : convert toUnixTime type source value =
    convert toUnixTime type .unknown value ↔ Keeps toUnixTime type source value := by
  obtain ⟨dataType, sizeOrPrecision, scale, format⟩ := type
  cases value with
  | none => exact iff_of_true rfl trivial
  | some text =>
    cases dataType
    case numeric => cases sizeOrPrecision <;> cases source <;> unfold convert Keeps <;> simp
    case string | nul | boolean => exact iff_of_true rfl trivial
    all_goals
      cases source <;> unfold convert Keeps <;> simp [SqlDataType.isDateTime, map_plus_eq_iff]

theorem valueError_unknown_isSome_iff :
    (valueError column isNotNull (convert toUnixTime type .unknown value)).isSome ↔
      RejectsValue type isNotNull value := by
  obtain ⟨dataType, sizeOrPrecision, scale, format⟩ := type
  cases value with
  | none => cases isNotNull <;> exact iff_of_eq rfl
  | some text =>
    cases dataType
    case numeric =>
      cases sizeOrPrecision with
      | none => exact iff_of_false Bool.false_ne_true id
      | some precision =>
        unfold convert RejectsValue cast2NUMERICWithPrecision
        dsimp only
        split_ifs with overflow
        · exact iff_of_true rfl overflow
        · exact iff_of_false Bool.false_ne_true overflow
    case string =>
      cases sizeOrPrecision with
      | none => exact iff_of_false Bool.false_ne_true id
      | some size =>
        unfold convert RejectsValue sizeCheckVARCHAR
        dsimp only
        split_ifs with fits blank
        · exact iff_of_false Bool.false_ne_true (·.1 fits)
        · exact iff_of_false Bool.false_ne_true (·.2 blank)
        · exact iff_of_true rfl ⟨fits, blank⟩
    all_goals exact iff_of_false Bool.false_ne_true id

/-- What is rejected with a list is rejected without one. -/
theorem valueError_of_unknown
    (fails : valueError column isNotNull (convert toUnixTime type .unknown value) = some error) :
    valueError column isNotNull (convert toUnixTime type source value) = some error := by
  obtain ⟨dataType, sizeOrPrecision, scale, format⟩ := type
  cases value with
  | none => exact fails
  | some text =>
    cases dataType
    case numeric =>
      cases sizeOrPrecision with
      | none => cases fails
      | some precision => exact fails
    case string | nul | boolean => exact fails
    all_goals cases fails

/-- A text for a date is read as one. -/
theorem convert_date {text : MString} (isDate : type.dataType.isDateTime = true) :
    convert toUnixTime type .stringLiteral (some text) =
      (toUnixTime type.format type.dataType text).map (Option.map plus) := by
  obtain ⟨dataType, sizeOrPrecision, scale, format⟩ := type
  cases dataType <;> first | rfl | exact absurd isDate Bool.false_ne_true

/-- Where no text is read as a date, the type of the source changes nothing, or a number results. -/
theorem convert_cases {text : MString}
    (noDate : ¬(source = .stringLiteral ∧ type.dataType.isDateTime = true)) :
    convert toUnixTime type source (some text) = convert toUnixTime type .unknown (some text) ∨
      ∃ number, convert toUnixTime type source (some text) = .ok (some number) := by
  obtain ⟨dataType, sizeOrPrecision, scale, format⟩ := type
  cases dataType
  case numeric =>
    cases sizeOrPrecision with
    | none => cases source <;> exact .inr ⟨_, rfl⟩
    | some precision => exact .inl rfl
  case string | nul | boolean => exact .inl rfl
  all_goals
    cases source <;> first | exact .inr ⟨_, rfl⟩ | exact absurd ⟨rfl, rfl⟩ noDate

theorem rejectsDate_iff
    (passes : valueError column isNotNull (convert toUnixTime type .unknown value) = none) :
    (valueError column isNotNull (convert toUnixTime type source value)).isSome ↔
      RejectsDate toUnixTime type source isNotNull value := by
  cases value with
  | none =>
    change valueError column isNotNull (.ok none) = none at passes
    change (valueError column isNotNull (.ok none)).isSome ↔ _
    simp [passes, RejectsDate]
  | some text =>
    by_cases date : source = .stringLiteral ∧ type.dataType.isDateTime = true
    · obtain ⟨rfl, isDate⟩ := date
      rw [convert_date isDate, RejectsDate]
      cases found : toUnixTime type.format type.dataType text with
      | error message => simp [Except.map, valueError, isDate, found]
      | ok internal => cases internal <;> simp [Except.map, valueError, isDate, found]
    · refine iff_of_false ?_ fun rejects => date ⟨rejects.1, rejects.2.1⟩
      obtain same | ⟨number, isNumber⟩ := convert_cases date
      · rw [same, passes]
        exact Bool.false_ne_true
      · rw [isNumber]
        exact Bool.false_ne_true

/-- With a list the text is stored as it is. -/
theorem RejectsDate.passes (date : RejectsDate toUnixTime type source isNotNull value)
    (column : Column) :
    valueError column isNotNull (convert toUnixTime type .unknown value) = none := by
  obtain ⟨dataType, sizeOrPrecision, scale, format⟩ := type
  obtain ⟨-, isDate, text, rfl, -⟩ := date
  cases dataType <;> first | rfl | exact absurd isDate Bool.false_ne_true

end Conversions

section Agreement

variable (target : InsertTarget) (overriding : Option Overriding) (types : List SqlValueType)
  (toUnixTime : DateTimeFormat → SqlDataType → MString → Except String (Option MString))
  (line : SourceLine)

/-- A column that gets an expression of the source query: its position, the type of the expression
and its value. -/
structure Gives (position : Nat) (column : Column) (type : SqlValueType)
    (value : Option MString) : Prop where
  isColumn : target.table.columns[position]? = some column
  isType : types[position]? = some type
  isUsed : ((target.info column).identity.isSome && overriding == some .userValue) = false
  isValue : value = (line.values[position]?).join

/-- A row that both forms treat alike: a column rejects its value, and no column before it gets a
text that is not a date; or all values are such that the conversions do not change them. -/
def RowAlike : Prop :=
  (∃ position column type value, Gives target overriding types line position column type value ∧
    RejectsValue (target.info column).type (target.table.isNotNull column) value ∧
    ∀ earlier < position, ∀ column type value,
      Gives target overriding types line earlier column type value →
        ¬RejectsDate toUnixTime (target.info column).type type (target.table.isNotNull column)
          value) ∨
  ∀ position column type value, Gives target overriding types line position column type value →
    Keeps toUnixTime (target.info column).type type value

variable {overriding types toUnixTime line} {position : Nat} {type : SqlValueType}

/-- What both forms compute for a column: the same unless an expression is converted. -/
theorem sourceRow_cases (isColumn : target.table.columns[position]? = some column)
    (isType : types[position]? = some type) :
    ((target.withList overriding types).sourceRow target toUnixTime line column =
        convert toUnixTime (target.info column).type .unknown (line.values[position]?).join ∧
      (target.withoutList overriding types).sourceRow target toUnixTime line column =
        convert toUnixTime (target.info column).type type (line.values[position]?).join ∧
      Gives target overriding types line position column type (line.values[position]?).join) ∨
    ((target.withList overriding types).sourceRow target toUnixTime line column =
        .ok (some (line.identity column)) ∧
      (target.withoutList overriding types).sourceRow target toUnixTime line column =
        .ok (some (line.identity column)) ∧
      ∀ type value, ¬Gives target overriding types line position column type value) := by
  have nodup := target.table.columns_nodup
  simp only [sourceRow, walk, withList, withoutList, lookup_walkList nodup isColumn,
    lookup_walkColumns nodup isColumn 0 types, isType, columnValue, map_some, join_some]
  cases used : (target.info column).identity.isSome && overriding == some .userValue with
  | false => exact .inl ⟨rfl, by simp, isColumn, isType, used, rfl⟩
  | true =>
    have identity : (target.info column).identity.isSome = true := by
      simp only [Bool.and_eq_true] at used
      exact used.1
    refine .inr ⟨by simp [identity], by simp [identity], fun type value gives => ?_⟩
    rw [gives.isUsed] at used
    cases used

/-- The error that a statement finds in a column. -/
def InsertStatement.columnError (statement : InsertStatement) (target : InsertTarget)
    (toUnixTime : DateTimeFormat → SqlDataType → MString → Except String (Option MString))
    (line : SourceLine) (column : Column) : Option (DmlError MString) :=
  valueError column (target.table.isNotNull column)
    (statement.sourceRow target toUnixTime line column)

section ColumnErrors

variable (isColumn : target.table.columns[position]? = some column)
  (isType : types[position]? = some type)
include isColumn isType

theorem columnError_of_list {error : DmlError MString}
    (fails : (target.withList overriding types).columnError target toUnixTime line column =
      some error) :
    (target.withoutList overriding types).columnError target toUnixTime line column =
      some error := by
  rw [columnError] at fails ⊢
  obtain ⟨list, noList, -⟩ | ⟨list, noList, -⟩ := sourceRow_cases target isColumn isType
  · rw [list] at fails
    rw [noList]
    exact valueError_of_unknown fails
  · rw [list] at fails
    cases fails

theorem columnError_list_isSome_iff :
    ((target.withList overriding types).columnError target toUnixTime line column).isSome ↔
      ∃ type value, Gives target overriding types line position column type value ∧
        RejectsValue (target.info column).type (target.table.isNotNull column) value := by
  rw [columnError]
  obtain ⟨list, -, gives⟩ | ⟨list, -, nothing⟩ := sourceRow_cases target isColumn isType
  · rw [list, valueError_unknown_isSome_iff]
    refine ⟨fun rejects => ⟨type, _, gives, rejects⟩, ?_⟩
    rintro ⟨other, value, same, rejects⟩
    rwa [← same.isValue]
  · rw [list]
    refine iff_of_false Bool.false_ne_true ?_
    rintro ⟨other, value, gives, -⟩
    exact nothing other value gives

theorem columnError_noList_iff :
    ((target.withList overriding types).columnError target toUnixTime line column = none ∧
      ((target.withoutList overriding types).columnError target toUnixTime line column).isSome) ↔
      ∃ type value, Gives target overriding types line position column type value ∧
        RejectsDate toUnixTime (target.info column).type type (target.table.isNotNull column)
          value := by
  rw [columnError, columnError]
  obtain ⟨list, noList, gives⟩ | ⟨list, noList, nothing⟩ := sourceRow_cases target isColumn isType
  · rw [list, noList]
    constructor
    · rintro ⟨passes, fails⟩
      exact ⟨type, _, gives, (rejectsDate_iff passes).mp fails⟩
    · rintro ⟨other, value, same, date⟩
      obtain rfl := some.inj (isType.symm.trans same.isType)
      rw [← same.isValue]
      have passes := date.passes column
      exact ⟨passes, (rejectsDate_iff passes).mpr date⟩
  · rw [noList]
    refine iff_of_false (fun both => Bool.false_ne_true both.2) ?_
    rintro ⟨other, value, gives, -⟩
    exact nothing other value gives

/-- An error that only the form without a list finds is not one of another column. -/
theorem columnError_apart (messages : MessagesApart toUnixTime) {otherPosition : Nat}
    {other : Column} {otherType : SqlValueType} {error : DmlError MString}
    (isOther : target.table.columns[otherPosition]? = some other)
    (isOtherType : types[otherPosition]? = some otherType)
    (passes : (target.withList overriding types).columnError target toUnixTime line column = none)
    (fails : (target.withoutList overriding types).columnError target toUnixTime line column =
      some error) :
    (target.withList overriding types).columnError target toUnixTime line other ≠ some error := by
  intro otherFails
  rcases valueError_eq_some fails with ⟨message, outcome, rfl⟩ | rfl
  · have otherOutcome : (target.withList overriding types).sourceRow target toUnixTime line other =
        .error message := by
      rcases valueError_eq_some otherFails with ⟨_, outcome, same⟩ | same
      · rw [outcome, DmlError.expression.inj same]
      · cases same
    obtain ⟨_, -, gives, rfl, isDate, text, rfl, date⟩ :=
      (columnError_noList_iff target isColumn isType).mp ⟨passes, isSome_iff_exists.mpr ⟨_, fails⟩⟩
    obtain ⟨-, noList, -⟩ | ⟨-, noList, -⟩ := sourceRow_cases target isColumn isType
    · obtain rfl := some.inj (isType.symm.trans gives.isType)
      rw [noList, ← gives.isValue, convert_date isDate] at outcome
      obtain ⟨list, -, -⟩ | ⟨list, -, -⟩ := sourceRow_cases target isOther isOtherType
      · rcases date with ⟨_, isError⟩ | ⟨isNull, -⟩
        · rw [isError] at outcome
          cases outcome
          exact messages _ _ _ _ isError _ _ (list.symm.trans otherOutcome)
        · rw [isNull] at outcome
          cases outcome
      · cases list.symm.trans otherOutcome
    · cases noList.symm.trans outcome
  · rcases valueError_eq_some otherFails with ⟨_, -, same⟩ | same
    · cases same
    · rw [← DmlError.nullColValue.inj same, passes] at otherFails
      cases otherFails

end ColumnErrors

/-- The first errors of two sources are the same if the column of one of them comes before each
column that only the other one rejects. -/
theorem findSome?_eq_iff {Error : Type} {list noList : Column → Option Error}
    (kept : ∀ column ∈ columns, ∀ error, list column = some error → noList column = some error)
    (apart : ∀ column ∈ columns, ∀ other ∈ columns, ∀ error, list column = none →
      noList column = some error → list other ≠ some error) :
    (∃ error, columns.findSome? list = some error ∧ columns.findSome? noList = some error) ↔
      ∃ (position : Nat) (column : Column), columns[position]? = some column ∧
        (list column).isSome ∧ ∀ earlier < position, ∀ other, columns[earlier]? = some other →
          ¬(list other = none ∧ (noList other).isSome) := by
  induction columns with
  | nil => simp
  | cons first rest ih =>
    obtain ⟨keptFirst, keptRest⟩ := forall_mem_cons.mp kept
    have apartRest := fun column member other there =>
      apart column (mem_cons_of_mem first member) other (mem_cons_of_mem first there)
    rw [findSome?_cons, findSome?_cons]
    cases inList : list first with
    | some error =>
      rw [keptFirst error inList]
      exact iff_of_true ⟨error, rfl, rfl⟩ ⟨0, first, rfl, by simp [inList], by simp⟩
    | none =>
      cases alone : noList first with
      | some error =>
        refine iff_of_false ?_ ?_
        · rintro ⟨other, found, same⟩
          cases same
          obtain ⟨column, member, isError⟩ := exists_of_findSome?_eq_some found
          exact apart first mem_cons_self column (mem_cons_of_mem _ member) error inList alone
            isError
        · rintro ⟨position, column, isColumn, rejects, before⟩
          cases position with
          | zero =>
            cases isColumn
            simp [inList] at rejects
          | succ position =>
            exact before 0 (Nat.succ_pos _) first rfl ⟨inList, by simp [alone]⟩
      | none =>
        refine (ih keptRest apartRest).trans ⟨?_, ?_⟩
        · rintro ⟨position, column, isColumn, rejects, before⟩
          refine ⟨position + 1, column, isColumn, rejects, fun earlier less other isOther => ?_⟩
          cases earlier with
          | zero =>
            cases isOther
            simp [alone]
          | succ earlier => exact before earlier (Nat.lt_of_succ_lt_succ less) other isOther
        · rintro ⟨position, column, isColumn, rejects, before⟩
          cases position with
          | zero =>
            cases isColumn
            simp [inList] at rejects
          | succ position =>
            exact ⟨position, column, isColumn, rejects, fun earlier less =>
              before (earlier + 1) (Nat.succ_lt_succ less)⟩

section SameLength

variable (sameLength : types.length = target.table.columns.length)
include sameLength

theorem exists_type (isColumn : target.table.columns[position]? = some column) :
    ∃ type, types[position]? = some type := by
  have inside := (List.getElem?_eq_some_iff.mp isColumn).1
  exact ⟨_, getElem?_eq_getElem (by omega)⟩

/-- Both forms compute the same for every column exactly if the conversions keep all values. -/
theorem sourceRow_eq_iff_keeps :
    (∀ column ∈ target.table.columns,
      (target.withList overriding types).sourceRow target toUnixTime line column =
        (target.withoutList overriding types).sourceRow target toUnixTime line column) ↔
      ∀ position column type value, Gives target overriding types line position column type value →
        Keeps toUnixTime (target.info column).type type value := by
  constructor
  · intro same position column type value gives
    rw [← convert_eq_iff, gives.isValue]
    obtain ⟨list, noList, -⟩ | ⟨-, -, nothing⟩ :=
      sourceRow_cases target gives.isColumn gives.isType
    · rw [← list, ← noList, same column (mem_of_getElem? gives.isColumn)]
    · exact absurd gives (nothing type value)
  · intro keeps column member
    obtain ⟨position, isColumn⟩ := mem_iff_getElem?.mp member
    obtain ⟨type, isType⟩ := exists_type target sameLength isColumn
    obtain ⟨list, noList, gives⟩ | ⟨list, noList, -⟩ := sourceRow_cases target isColumn isType
    · rw [list, noList, convert_eq_iff.mpr (keeps position column type _ gives)]
    · rw [list, noList]

end SameLength

/-- The values of a row are computed alike by both forms exactly if the row is such. -/
theorem insertedValues_sourceRow_eq_iff (messages : MessagesApart toUnixTime)
    (sameLength : types.length = target.table.columns.length) :
    insertedValues target.table
        ((target.withList overriding types).sourceRow target toUnixTime line) =
      insertedValues target.table
        ((target.withoutList overriding types).sourceRow target toUnixTime line) ↔
      RowAlike target overriding types toUnixTime line := by
  rw [insertedValues_eq_iff]
  refine or_congr ?_ (sourceRow_eq_iff_keeps target sameLength)
  simp only [insertedValues, assignedValues_eq_error_iff]
  refine (findSome?_eq_iff (fun column member error => ?_) fun column member other there error =>
    ?_).trans ⟨?_, ?_⟩
  · obtain ⟨position, isColumn⟩ := mem_iff_getElem?.mp member
    obtain ⟨type, isType⟩ := exists_type target sameLength isColumn
    exact columnError_of_list target isColumn isType
  · obtain ⟨position, isColumn⟩ := mem_iff_getElem?.mp member
    obtain ⟨type, isType⟩ := exists_type target sameLength isColumn
    obtain ⟨otherPosition, isOther⟩ := mem_iff_getElem?.mp there
    obtain ⟨otherType, isOtherType⟩ := exists_type target sameLength isOther
    exact columnError_apart target isColumn isType messages isOther isOtherType
  · rintro ⟨position, column, isColumn, rejects, before⟩
    obtain ⟨type, isType⟩ := exists_type target sameLength isColumn
    obtain ⟨type, value, gives, rejects⟩ :=
      (columnError_list_isSome_iff target isColumn isType).mp rejects
    refine ⟨position, column, type, value, gives, rejects, ?_⟩
    intro earlier less other otherType otherValue otherGives date
    exact before earlier less other otherGives.isColumn
      ((columnError_noList_iff target otherGives.isColumn otherGives.isType).mpr
        ⟨otherType, otherValue, otherGives, date⟩)
  · rintro ⟨position, column, type, value, gives, rejects, before⟩
    refine ⟨position, column, gives.isColumn, (columnError_list_isSome_iff target gives.isColumn
      gives.isType).mpr ⟨type, value, gives, rejects⟩, fun earlier less other isOther date => ?_⟩
    obtain ⟨otherType, isType⟩ := exists_type target sameLength isOther
    obtain ⟨otherType, otherValue, otherGives, date⟩ :=
      (columnError_noList_iff target isOther isType).mp date
    exact before earlier less other otherType otherValue otherGives date

theorem length_eq_of_check (passed : (target.withList overriding types).check target = .ok ()) :
    types.length = target.table.columns.length := by
  simp only [check, withList, checkCounts_eq] at passed
  split at passed
  case h_1 => cases passed
  case h_2 =>
    by_contra differs
    rcases Nat.lt_or_gt_of_ne differs with fewer | more
    · rw [if_pos fewer] at passed
      cases passed
    · rw [if_neg (by omega), if_pos more] at passed
      cases passed

/-- All rows that a run reaches are treated alike. -/
def ReachedAlike (target : InsertTarget) (overriding : Option Overriding)
    (types : List SqlValueType)
    (toUnixTime : DateTimeFormat → SqlDataType → MString → Except String (Option MString)) :
    List SourceLine → InsertState MString MString → Prop
  | [], _ => True
  | line :: rest, state => RowAlike target overriding types toUnixTime line ∧
      ∀ after, insertRow target.table
          ((target.withList overriding types).sourceRow target toUnixTime line) state = .ok after →
        ReachedAlike target overriding types toUnixTime rest after

variable {target} in
/-- Rows that are computed alike are inserted alike. -/
theorem forList_insertRow_eq {lines : List SourceLine} (messages : MessagesApart toUnixTime)
    (sameLength : types.length = target.table.columns.length)
    {state : InsertState MString MString}
    (alike : ReachedAlike target overriding types toUnixTime lines state) :
    forList (insertRow target.table)
        (lines.map ((target.withList overriding types).sourceRow target toUnixTime)) state =
      forList (insertRow target.table)
        (lines.map ((target.withoutList overriding types).sourceRow target toUnixTime)) state := by
  induction lines generalizing state with
  | nil => rfl
  | cons line rest ih =>
    obtain ⟨here, later⟩ := alike
    have sameValues := (insertedValues_sourceRow_eq_iff target messages sameLength).mpr here
    rw [map_cons, map_cons, forList, forList, ← insertRow_congr sameValues]
    cases step : insertRow target.table
        ((target.withList overriding types).sourceRow target toUnixTime line) state with
    | error error => rfl
    | ok after => exact ih (later after step)

end Agreement

/-- The type of a column without size, precision and scale. -/
def plainType (dataType : SqlDataType) : SqlDataTypeStruct :=
  ⟨dataType, none, none, .text⟩

/-- The table of `CREATE TABLE amounts (id INTEGER PRIMARY KEY, amount INTEGER)`. -/
def amountsTable : TableDefinition MString MString where
  format := wholeNodeFormat
  numKeys := 1
  numCells := 1
  columns := [.key 0, .cell 0]
  hasHiddenColumn := false
  rowNumber := fun _ => ⊥
  notNullCells := []
  checks := []
  uniques := [.primaryKey "amounts_pkey"]
  numKeys_pos := Nat.one_pos
  exists_primaryKey := fun _ => ⟨"amounts_pkey", List.mem_cons_self ..⟩
  columns_nodup := by decide
  mem_columns := by rintro (_ | _) <;> simp
  hidden_numKeys := namesTable.hidden_numKeys
  hidden_rowNumber := namesTable.hidden_rowNumber
  unique_columns := by simp
  gblnames_nodup := List.nodup_nil

/-- The columns of the table. -/
def amounts : InsertTarget where
  table := amountsTable
  info := fun column =>
    ⟨match column with
      | .key _ => "id"
      | .cell _ => "amount", plainType .integer, none⟩
  columnName_inj := by decide

/-- The row `VALUES (1, amount)`. -/
def amountLine (amount : List Char) : SourceLine :=
  ⟨[some (.ofLetters ['1']), some (.ofLetters amount)], fun _ => ⊥⟩

/-- The table has no dates, so it does not matter how they are read. -/
def noDates (_ : DateTimeFormat) (_ : SqlDataType) (_ : MString) :
    Except String (Option MString) :=
  .ok none

theorem messagesApart_noDates : MessagesApart noDates := by
  rintro format dataType text _ ⟨⟩

end Octo.Dml
