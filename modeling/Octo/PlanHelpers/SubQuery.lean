import Octo.PlanHelpers.SetOperations

/-!
# Sub-queries as values

The rows of a scalar sub-query are subscripts, with the number of times they occurred. The empty
string comes first among the subscripts and NULL comes last. `GetScalarOrArray` looks at the first
two of them.
-/
namespace Octo.PlanHelpers

open LocalArray Finset

theorem not_null_lt (value : MValue) : ¬MValue.null < value := by
  cases value with
  | text bytes => exact lt_asymm (MValue.text_lt_null bytes)
  | null => exact lt_irrefl _

/-- The error `SUBQUERYMULTIPLEROWS`. -/
inductive ScalarError where
  | subqueryMultipleRows
deriving DecidableEq, Repr

/-- The first row of a sub-query that has rows. -/
def firstsub (keys : KeyTable) : MValue :=
  if keys.data ⊥ then ⊥ else keys.order ⊥

/-- Whether there is another row behind the first one. -/
def morethanonesub (keys : KeyTable) : Bool :=
  let secondsub := keys.order (firstsub keys)
  if firstsub keys = .null then false
  else if secondsub = .null then true
  else if !keys.data secondsub then false
  else firstsub keys ≠ secondsub

/-- `GetScalarOrArray` without `toArray`, when the plan was invoked. -/
def getScalar (keys : KeyTable) : Except ScalarError MValue :=
  if keys.subs = ∅ then .ok .null
  else if morethanonesub keys || 1 < keys.number (firstsub keys) then .error .subqueryMultipleRows
  else .ok (firstsub keys)

/-- The table of a sub-query with these rows. -/
def KeyTable.ofRows (rows : List MValue) : KeyTable where
  subs := rows.toFinset
  get? row := if row ∈ rows then some (rows.count row) else none
  mem_subs row := by simp [Option.isSome_ite]

theorem KeyTable.number_ofRows (rows : List MValue) (row : MValue) :
    (KeyTable.ofRows rows).number row = rows.count row := by
  by_cases member : row ∈ rows <;>
    simp [number, KeyTable.ofRows, member, List.count_eq_zero_of_not_mem]

variable {keys : KeyTable}

theorem firstsub_mem (nonempty : keys.subs ≠ ∅) : firstsub keys ∈ keys.subs := by
  unfold firstsub
  split
  case isTrue present => exact mem_subs_iff_data.mpr present
  case isFalse absent =>
    rcases keys.order_cases ⊥ with ⟨-, none⟩ | ⟨-, present, -, -⟩
    · obtain ⟨row, member⟩ := nonempty_iff_ne_empty.mpr nonempty
      have isBot : row = ⊥ := not_bot_lt_iff.mp (filter_eq_empty_iff.mp none member)
      exact absurd (mem_subs_iff_data.mp (isBot ▸ member)) absent
    · exact present

theorem firstsub_le {row : MValue} (member : row ∈ keys.subs) : firstsub keys ≤ row := by
  unfold firstsub
  split
  case isTrue => exact bot_le
  case isFalse absent =>
    have behind : ⊥ < row := bot_lt_iff_ne_bot.mpr fun isBot =>
      absent (mem_subs_iff_data.mp (isBot ▸ member))
    rcases keys.order_cases ⊥ with ⟨-, none⟩ | ⟨-, -, -, isLeast⟩
    · exact absurd behind (filter_eq_empty_iff.mp none member)
    · exact isLeast row member behind

/-- NULL is the last subscript, so that a first row that is NULL is the only one. -/
theorem morethanonesub_iff :
    morethanonesub keys = true ↔ ∃ row ∈ keys.subs, row ≠ firstsub keys := by
  unfold morethanonesub
  rcases keys.order_cases (firstsub keys) with ⟨ends, none⟩ | ⟨-, present, follows, -⟩
  · have onlyFirst : ¬∃ row ∈ keys.subs, row ≠ firstsub keys := by
      rintro ⟨row, member, differs⟩
      exact filter_eq_empty_iff.mp none member ((firstsub_le member).lt_of_ne' differs)
    rw [iff_false_right onlyFirst, ends]
    have notNull : (⊥ : MValue) ≠ .null := nofun
    by_cases present : keys.data ⊥
    · have isBot : firstsub keys = ⊥ := if_pos present
      simp [isBot]
    · simp [present]
  · have notNull : firstsub keys ≠ .null := fun isNull => not_null_lt _ (isNull ▸ follows)
    rw [iff_true_right ⟨_, present, follows.ne'⟩]
    simp [notNull, follows.ne, mem_subs_iff_data.mp present]

/-- For all rows of a scalar sub-query: there is no row and the value is NULL, or there is one row
and it is the value, or there are more and this is an error. -/
theorem getScalar_ofRows (rows : List MValue) :
    getScalar (.ofRows rows) = match rows with
      | [] => .ok .null
      | [value] => .ok value
      | _ => .error .subqueryMultipleRows := by
  have mem_subs (row : MValue) : row ∈ (KeyTable.ofRows rows).subs ↔ row ∈ rows := List.mem_toFinset
  rw [getScalar, KeyTable.number_ofRows]
  cases rows with
  | nil => rfl
  | cons first rest =>
    have nonempty : (KeyTable.ofRows (first :: rest)).subs ≠ ∅ :=
      Finset.ne_empty_of_mem ((mem_subs first).mpr List.mem_cons_self)
    have isFirst := (mem_subs _).mp (firstsub_mem nonempty)
    rw [if_neg nonempty]
    cases rest with
    | nil =>
      have same := List.mem_singleton.mp isFirst
      have alone : morethanonesub (.ofRows [first]) = false := by
        rw [← Bool.not_eq_true, morethanonesub_iff]
        simp [mem_subs, same]
      simp [alone, same]
    | cons second rest =>
      refine if_pos ?_
      rw [Bool.or_eq_true, morethanonesub_iff]
      refine or_iff_not_imp_left.mpr fun noOther => ?_
      have same (row) (member : row ∈ first :: second :: rest) :
          firstsub (.ofRows (first :: second :: rest)) = row := by
        by_contra differs
        exact noOther ⟨row, (mem_subs row).mpr member, Ne.symm differs⟩
      simp [List.count_eq_length.mpr same]

end Octo.PlanHelpers
