import Octo.Foundation.Kleene
import Octo.PlanHelpers.SubQuery

/-!
# IN and NOT IN

`tmpl_print_expression` prints IN with a list of values as a chain of comparisons. For a sub-query
it prints tests for subscripts of the output key instead: the left value itself, and NULL. These
tests compare texts, also of numbers. Only NOT IN looks first whether there is a row at all.
-/
namespace Octo.Physical

open Kleene PlanHelpers

/-- `=`, for numbers with `$$ForceNumeric` on both sides. M writes equal numbers alike. -/
def comparesEqual (isString : Bool) : MValue → MValue → Truth
  | .text left, .text right =>
    .ofBool (if isString then left = right else MValue.numeric left = MValue.numeric right)
  | _, _ => .unknown

/-! ## The printed code -/

/-- The `$SELECT` that is printed for a sub-query, on its output key. -/
def printInSubQuery (isNot : Bool) (left : MValue) (keys : KeyTable) : Truth :=
  if isNot ∧ keys.subs = ∅ then .true
  else if left = .null then .unknown
  else if keys.data left then .ofBool !isNot
  else if keys.data .null then .unknown
  else .ofBool isNot

/-- A comparison of the chain follows, behind `!` for IN and behind `&` for NOT IN. -/
def inChain (isNot isString : Bool) (left : MValue) (result : Truth) (value : MValue) : Truth :=
  let test := (comparesEqual isString left value).negateIf isNot
  if isNot then result.and test else result.or test

/-- The chain that is printed for a list. With dots it begins with 0 or 1. -/
def printInList (dotted isNot isString : Bool) (left first : MValue) (rest : List MValue) : Truth :=
  if dotted then (first :: rest).foldl (inChain isNot isString left) (.ofBool isNot)
  else rest.foldl (inChain isNot isString left) ((comparesEqual isString left first).negateIf isNot)

/-! ## Comparison with SQL -/

/-- The result of IN in SQL: the disjunction of the comparisons. -/
def sqlIn (isString : Bool) (left : MValue) (values : List MValue) : Truth :=
  (values.map (comparesEqual isString left)).sum

variable {isNot isString : Bool} {left : MValue} {rows : List MValue}

theorem foldl_inChain (result : Truth) (values : List MValue) :
    values.foldl (inChain isNot isString left) (result.negateIf isNot) =
      (result.or (sqlIn isString left values)).negateIf isNot := by
  induction values generalizing result with
  | nil => exact congrArg _ (add_zero result).symm
  | cons value values ih =>
    have next : inChain isNot isString left (result.negateIf isNot) value =
        (result.or (comparesEqual isString left value)).negateIf isNot := by
      cases isNot <;> simp [inChain, Truth.not_or]
    rw [List.foldl_cons, next, ih]
    exact congrArg _ (add_assoc result _ _)

theorem comparesEqual_self (bytes : List UInt8) :
    comparesEqual isString (.text bytes) (.text bytes) = .true := by
  simp [comparesEqual, Truth.ofBool]

theorem unknown_mem_iff (bytes : List UInt8) :
    .unknown ∈ rows.map (comparesEqual isString (.text bytes)) ↔ .null ∈ rows := by
  have isNull (row : MValue) :
      comparesEqual isString (.text bytes) row = .unknown ↔ row = .null := by
    cases row with
    | null => exact iff_of_true rfl rfl
    | text other =>
      refine iff_of_false ?_ nofun
      unfold comparesEqual Truth.ofBool
      split <;> split <;> nofun
  simp [isNull]

/-- A number that is equal to a row is found as a subscript. It is missed if they are written in
different ways. -/
def FindsEqual (left : MValue) (rows : List MValue) : Prop :=
  .true ∈ rows.map (comparesEqual false left) → left ∈ rows

theorem mem_of_equal_string (found : .true ∈ rows.map (comparesEqual true left)) : left ∈ rows := by
  obtain ⟨row, member, equal⟩ := List.mem_map.mp found
  cases left with
  | null => cases equal
  | text bytes =>
    cases row with
    | null => cases equal
    | text other =>
      by_cases same : bytes = other
      · rwa [same]
      · simp [comparesEqual, same, Truth.ofBool] at equal

/-- With a list the result is that of SQL. With a sub-query it is, except for NULL IN no row, and
for numbers that are not found as texts. -/
theorem printIn_eq_sqlIn_iff (dotted isNot isString : Bool) (left first : MValue)
    (rest rows : List MValue) :
    printInList dotted isNot isString left first rest =
        (sqlIn isString left (first :: rest)).negateIf isNot ∧
      (printInSubQuery isNot left (.ofRows rows) = (sqlIn isString left rows).negateIf isNot ↔
        (left = .null → rows = [] → isNot = true) ∧ (isString = false → FindsEqual left rows)) := by
  constructor
  · unfold printInList
    split
    · have start : Truth.ofBool isNot = Truth.false.negateIf isNot := by cases isNot <;> rfl
      rw [start, foldl_inChain]
      rfl
    · exact foldl_inChain _ rest
  · have data (row : MValue) : (KeyTable.ofRows rows).data row = true ↔ row ∈ rows := by
      rw [← LocalArray.mem_subs_iff_data]
      exact List.mem_toFinset
    have empty : (KeyTable.ofRows rows).subs = ∅ ↔ rows = [] := List.toFinset_eq_empty_iff rows
    have finds : (isString = false → FindsEqual left rows) ↔
        (.true ∈ rows.map (comparesEqual isString left) → left ∈ rows) := by
      cases isString with
      | true => exact iff_of_true nofun mem_of_equal_string
      | false => exact forall_prop_of_true rfl
    rw [finds]
    simp only [printInSubQuery, data, empty, sqlIn, Truth.sum_eq]
    cases left with
    | null =>
      cases rows with
      | nil => cases isNot <;> simp [Truth.not]
      | cons row rows => cases isNot <;> simp [comparesEqual, Truth.not]
    | text bytes =>
      simp only [unknown_mem_iff]
      by_cases member : .text bytes ∈ rows
      · have found := List.mem_map_of_mem (f := comparesEqual isString (.text bytes)) member
        rw [comparesEqual_self] at found
        cases isNot <;> simp [member, found, List.ne_nil_of_mem member, Truth.ofBool, Truth.not]
      · have empty : rows = [] → .null ∉ rows ∧
            .true ∉ rows.map (comparesEqual isString (.text bytes)) := by
          rintro rfl
          exact ⟨List.not_mem_nil, List.not_mem_nil⟩
        by_cases found : .true ∈ rows.map (comparesEqual isString (.text bytes)) <;>
          by_cases null : .null ∈ rows <;> by_cases none : rows = [] <;> cases isNot <;>
          simp_all [-List.mem_map, Truth.ofBool, Truth.not]

/-- `NULL IN` a sub-query without rows is NULL. -/
theorem null_in_no_row :
    printInSubQuery false .null (.ofRows []) = .unknown ∧ sqlIn true .null [] = .false :=
  ⟨rfl, rfl⟩

end Octo.Physical
