import Octo.PlanHelpers.SetOperations

/-!
# Set operations on numbered rows

A helper puts rows into its result one after the other. `Wrote` says which rows these are while the
helper runs, and `Wrote.finish` that the finished table holds them. What the index knows about the
rows that were read is the invariant of each helper.
-/
namespace Octo.PlanHelpers

open LocalArray List RowState Nat RowTable Option

variable {Index : Type} {keys : SetKeys} {cursor : RowCursor} {rows left right : List MValue}

/-! ## The result -/

/-- The rows that were written since the key of the result was killed. -/
structure Filled (keys : SetKeys) (cursor : RowCursor) (rows : List MValue) (now : RowCursor) :
    Prop where
  count : (now keys.outputId).count = none
  get?_rows : ∀ z, (now keys.outputId).rows.get? z = if z = 0 then none else rows[z - 1]?
  others : ∀ id, id ≠ keys.outputId → now id = cursor id

theorem filled_kill (keys : SetKeys) (cursor : RowCursor) :
    Filled keys cursor [] (cursor.kill keys.outputId) where
  count := by simp [RowCursor.kill, killed]
  get?_rows z := by simp [RowCursor.kill, killed]
  others id differs := by simp [RowCursor.kill, differs]

/-- Where a list has its elements after one more was put behind it, counted from 1. -/
theorem getElem?_numbered_append (rows : List MValue) (val : MValue) (z : Nat) :
    (if z = rows.length + 1 then some val else if z = 0 then none else rows[z - 1]?) =
      if z = 0 then none else (rows ++ [val])[z - 1]? := by
  rcases z with _ | z
  · rfl
  · simp only [Nat.add_right_cancel_iff, Nat.add_sub_cancel]
    split
    case isTrue last => simp [last]
    case isFalse differs =>
      rcases Nat.lt_or_gt_of_ne differs with inside | behind
      · rw [getElem?_append_left inside]
      · rw [getElem?_eq_none behind.le, getElem?_eq_none (by simpa using Nat.succ_le_of_lt behind)]

variable {now : RowCursor} {state : RowState Index} {id : Nat} {index : LocalArray MValue Int}
    {val : MValue}

theorem Filled.setRow (filled : Filled keys cursor rows now) (val : MValue) :
    Filled keys cursor (rows ++ [val]) (now.setRow keys.outputId (rows.length + 1) val) where
  count := by simp [RowCursor.setRow, filled.count]
  get?_rows z := by
    rw [← getElem?_numbered_append, ← filled.get?_rows]
    simp [RowCursor.setRow]
  others id differs := by
    rw [← filled.others id differs]
    simp [RowCursor.setRow, differs]

/-- The table of a helper that has ended, and the other tables. -/
def HasRows (keys : SetKeys) (cursor : RowCursor) (rows : List MValue) (result : RowCursor) :
    Prop :=
  (result keys.outputId).Holds rows ∧ ∀ id, id ≠ keys.outputId → result id = cursor id

theorem Filled.setCount (filled : Filled keys cursor rows now) :
    HasRows keys cursor rows (now.setCount keys.outputId rows.length) := by
  refine ⟨⟨?_, fun z => ?_⟩, fun id differs => ?_⟩
  · simp [RowCursor.setCount, storedCount]
  · simpa [RowCursor.setCount] using filled.get?_rows z
  · simpa [RowCursor.setCount, differs] using filled.others id differs

/-- The rows that a helper has written, which counts them in `z2`. -/
structure Wrote (keys : SetKeys) (cursor : RowCursor) (rows : List MValue)
    (state : RowState Index) : Prop where
  z2 : state.z2 = if rows = [] then none else some rows.length
  filled : Filled keys cursor rows state.cursor

theorem wrote_start (keys : SetKeys) (cursor : RowCursor) :
    Wrote keys cursor [] (.start keys cursor : RowState Index) :=
  ⟨rfl, filled_kill keys cursor⟩

section

variable (wrote : Wrote keys cursor rows state)
include wrote

theorem Wrote.emit (val : MValue) : Wrote keys cursor (rows ++ [val]) (state.emit keys val) := by
  have counted : state.z2.getD 0 = rows.length := by
    rw [wrote.z2]
    split
    case isTrue isEmpty => rw [isEmpty]; rfl
    case isFalse => rfl
  refine ⟨by simp [RowState.emit, counted], ?_⟩
  have written := wrote.filled.setRow val
  rwa [← counted] at written

/-- The index is no part of the result. -/
theorem Wrote.withIndex (index : LocalArray MValue Index) :
    Wrote keys cursor rows { state with index := index } :=
  ⟨wrote.z2, wrote.filled⟩

theorem Wrote.finish : HasRows keys cursor rows (state.finish keys) := by
  unfold RowState.finish
  rw [wrote.z2]
  by_cases isEmpty : rows = []
  · rw [if_pos isEmpty]
    refine ⟨⟨?_, wrote.filled.get?_rows⟩, wrote.filled.others⟩
    rw [storedCount, wrote.filled.count, isEmpty]
    rfl
  · rw [if_neg isEmpty]
    exact wrote.filled.setCount

end

/-! ## Reading the operands -/

/-- The rows behind some that were read are under the numbers that follow. -/
theorem foldlM_range'_get? {State : Type} {body : MValue → State → State}
    {table : State → LocalArray Nat MValue} {array : LocalArray Nat MValue}
    (stays : ∀ val state, table state = array → table (body val state) = array) (before : Nat)
    (rows : List MValue) (state : State) (same : table state = array)
    (holds : ∀ index, index < rows.length → array.get? (before + 1 + index) = rows[index]?) :
    (range' (before + 1) rows.length).foldlM (fun state z => do
      let val ← (table state).get? z
      some (body val state)) state = some (rows.foldl (fun state val => body val state) state) := by
  induction rows generalizing before state with
  | nil => rfl
  | cons row rest ih =>
    have here : array.get? (before + 1) = some row := by simpa using holds 0 (by simp)
    rw [length_cons, range'_succ, foldlM_cons, same, here]
    refine ih (before + 1) (body row state) (stays row state same) fun index inside => ?_
    have there := holds (index + 1) (by simpa using inside)
    rw [getElem?_cons_succ] at there
    rw [← there]
    congr 1
    omega

theorem RowTable.Holds.get?_succ {table : RowTable} (holds : table.Holds rows) (index : Nat) :
    table.rows.get? (0 + 1 + index) = rows[index]? := by
  rw [holds.get?_rows, if_neg (by omega)]
  congr 1
  omega

/-- A loop over the rows of a table that the body does not change. -/
theorem forRows_eq {body : MValue → RowState Index → RowState Index}
    (holds : (state.cursor id).Holds rows)
    (stays : ∀ val state, (body val state).cursor id = state.cursor id) :
    forRows id body state = some (rows.foldl (fun state val => body val state) state) := by
  unfold forRows
  rw [holds.storedCount]
  refine foldlM_range'_get? ?_ 0 rows state rfl fun index _ => holds.get?_succ index
  intro val after same
  rw [stays, same]

/-- The rows of both operands. -/
structure Operands (keys : SetKeys) (cursor : RowCursor) (left right : List MValue) : Prop where
  first : (cursor keys.inputId1).Holds left
  second : (cursor keys.inputId2).Holds right

/-- The state behind the loops over both operands. -/
def afterInputs (keys : SetKeys) (body : Bool → MValue → RowState Index → RowState Index)
    (cursor : RowCursor) (left right : List MValue) : RowState Index :=
  right.foldl (fun state val => body false val state)
    (left.foldl (fun state val => body true val state) (.start keys cursor))

section

variable {body : Bool → MValue → RowState Index → RowState Index}
  (operands : Operands keys cursor left right)
  (stays : ∀ isFirst val state id, id ≠ keys.outputId →
    (body isFirst val state).cursor id = state.cursor id)
include operands stays

theorem forInputs_eq :
    forInputs keys body cursor = some (afterInputs keys body cursor left right) := by
  have started : ∀ id, id ≠ keys.outputId →
      (start keys cursor : RowState Index).cursor id = cursor id :=
    (filled_kill keys cursor).others
  have unchanged : ∀ isFirst (rows : List MValue) state id, id ≠ keys.outputId →
      (rows.foldl (fun state val => body isFirst val state) state).cursor id = state.cursor id := by
    intro isFirst rows state id differs
    refine foldl_done (fun _ (after : RowState Index) => after.cursor id = state.cursor id) rfl ?_
      rows
    intro _ val after same
    exact (stays _ _ _ _ differs).trans same
  unfold forInputs
  rw [decide_eq_true rfl, decide_eq_false keys.inputs_differ.symm, @forRows_eq _ left]
  · refine forRows_eq ?_ fun val state => stays _ _ _ _ keys.output_ne_second.symm
    rw [unchanged _ _ _ _ keys.output_ne_second.symm, started _ keys.output_ne_second.symm]
    exact operands.second
  · rw [started _ keys.output_ne_first.symm]
    exact operands.first
  · exact fun val state => stays _ _ _ _ keys.output_ne_first.symm

variable (body) in
/-- The loops over both operands end, with what they keep up. -/
theorem exists_forInputs (inv : List MValue → List MValue → RowState Index → Prop)
    (start : inv [] [] (.start keys cursor))
    (first : ∀ done val state, inv done [] state → inv (done ++ [val]) [] (body true val state))
    (second : ∀ done val state, inv left done state →
      inv left (done ++ [val]) (body false val state)) :
    ∃ state, forInputs keys body cursor = some state ∧ inv left right state := by
  refine ⟨_, forInputs_eq operands stays, ?_⟩
  apply foldl_done (inv left ·) _ second
  exact foldl_done (inv · []) start first left

end

/-- A helper ends with the rows of a set operation in its table. -/
def Performs (operation : SetOperation) (keys : SetKeys) (cursor : RowCursor)
    (left right : List MValue) (ended : Option RowCursor) : Prop :=
  ∃ result rows, ended = some result ∧ HasRows keys cursor rows result ∧
    ∀ val, rows.count val = operation.multiplicity (left.count val) (right.count val)

/-! ## Rows that are written while they are read -/

/-- The rest of a table is copied behind the rows of the result. -/
theorem exists_copyRows {behind : Nat} (differs : id ≠ keys.outputId)
    (holds : (cursor id).Holds rows) (rest copied written : List MValue) (now : RowCursor)
    (split : rows = copied ++ rest) (counted : written.length = behind + copied.length)
    (filled : Filled keys cursor written now) :
    ∃ result, (range' (copied.length + 1) rest.length).foldlM (fun cursor z => do
      let val ← (cursor id).rows.get? z
      some (cursor.setRow keys.outputId (behind + z) val)) now = some result ∧
      Filled keys cursor (written ++ rest) result := by
  induction rest generalizing copied written now with
  | nil => exact ⟨now, rfl, by simpa using filled⟩
  | cons row rest ih =>
    have here : (now id).rows.get? (copied.length + 1) = some row := by
      rw [filled.others id differs, holds.get?_rows, split]
      simp
    have next := filled.setRow row
    rw [counted, add_assoc] at next
    obtain ⟨result, ended, full⟩ := ih (copied ++ [row]) (written ++ [row]) _ (by simpa using split)
      (by simp [counted, add_assoc]) next
    refine ⟨result, ?_, by simpa using full⟩
    rw [length_cons, range'_succ, foldlM_cons, here]
    simpa using ended

theorem Filled.copyRows {written : List MValue} (filled : Filled keys cursor written now)
    (differs : id ≠ keys.outputId) (holds : (cursor id).Holds rows) :
    ∃ result, copyRows id keys.outputId written.length (now id).storedCount now = some result ∧
      Filled keys cursor (written ++ rows) result := by
  rw [filled.others id differs, holds.storedCount]
  exact exists_copyRows differs holds rows [] written now rfl rfl filled

theorem performs_unionAll (operands : Operands keys cursor left right) :
    Performs .unionAll keys cursor left right (unionAll keys cursor) := by
  have started := filled_kill keys cursor
  obtain ⟨middle, first, half⟩ := started.copyRows keys.output_ne_first.symm operands.first
  obtain ⟨result, second, full⟩ := half.copyRows keys.output_ne_second.symm operands.second
  have count1 : (cursor.kill keys.outputId keys.inputId1).storedCount = left.length := by
    rw [started.others _ keys.output_ne_first.symm, operands.first.storedCount]
  have count2 : (middle keys.inputId2).storedCount = right.length := by
    rw [half.others _ keys.output_ne_second.symm, operands.second.storedCount]
  rw [count1] at first
  rw [count2] at second
  refine ⟨_, left ++ right, ?_, full.setCount, fun val => count_append⟩
  unfold unionAll
  dsimp only
  rw [count1, show copyRows _ _ 0 _ _ = _ from first, bind_eq_bind, bind_some, count2,
    show copyRows _ _ left.length _ _ = _ from second, length_append]
  rfl

theorem emit_cursor (differs : id ≠ keys.outputId) (val : MValue) (state : RowState Index) :
    (state.emit keys val).cursor id = state.cursor id := by
  simp [emit, RowCursor.setRow, differs]

/-- The index of `UNION` has the rows that were written, each once. -/
structure UnionInv (keys : SetKeys) (cursor : RowCursor) (done : List MValue)
    (state : RowState Unit) : Prop where
  data : ∀ val, state.index.data val = true ↔ val ∈ done
  wrote : ∃ rows, Wrote keys cursor rows state ∧
    ∀ val, rows.count val = if val ∈ done then 1 else 0

theorem UnionInv.step {done : List MValue} {state : RowState Unit} (isFirst : Bool) (val : MValue)
    (inv : UnionInv keys cursor done state) :
    UnionInv keys cursor (done ++ [val]) (unionBody keys isFirst val state) := by
  obtain ⟨data, rows, wrote, counts⟩ := inv
  unfold unionBody
  split
  case isTrue present =>
    have known := (data val).mp present
    have same : ∀ other, other ∈ done ++ [val] ↔ other ∈ done := by
      intro other
      rw [mem_append, mem_singleton]
      exact ⟨fun either => either.elim id (· ▸ known), Or.inl⟩
    exact ⟨fun other => (data other).trans (same other).symm, rows, wrote, by simpa only [same]⟩
  case isFalse absent =>
    have fresh : val ∉ done := fun known => absent ((data val).mpr known)
    refine ⟨fun other => ?_, rows ++ [val], (wrote.emit val).withIndex _, fun other => ?_⟩
    · have before := data other
      simp only [setIndex, emit, LocalArray.data] at before ⊢
      by_cases same : other = val <;> simp [same, before]
    · rw [count_append, counts]
      by_cases same : other = val
      · simp [same, fresh]
      · simp [same, Ne.symm same]

theorem performs_union (operands : Operands keys cursor left right) :
    Performs .union keys cursor left right (union keys cursor) := by
  obtain ⟨state, ended, -, rows, wrote, counts⟩ :=
    exists_forInputs (unionBody keys) operands (by
        intro isFirst val state id differs
        unfold unionBody
        split
        · rfl
        · exact emit_cursor differs val state)
      (fun left right => UnionInv keys cursor (left ++ right))
      ⟨by simp [start, data], [], wrote_start keys cursor, by simp⟩
      (fun done val state inv => by simpa using UnionInv.step true val inv)
      (fun done val state inv => by simpa using UnionInv.step false val inv)
  refine ⟨_, rows, congrArg _ ended, wrote.finish, fun val => ?_⟩
  simp [counts, SetOperation.multiplicity]

/-! ## What the index knows -/

theorem count_append_val (done : List MValue) (val other : MValue) :
    (done ++ [val]).count other = done.count other + if other = val then 1 else 0 := by
  by_cases same : other = val
  · simp [same]
  · simp [same, Ne.symm same]

theorem number_increment (index : LocalArray MValue Int) (val other : MValue) (amount : Int) :
    (index.increment val amount).number other =
      index.number other + if other = val then amount else 0 := by
  by_cases same : other = val
  · subst same
    simp [number]
  · simp [number, same]

/-- An index of `ALL` has how often a row of the first operand can still be met. -/
structure Remaining (left done : List MValue) (index : LocalArray MValue Int) : Prop where
  number : ∀ val, index.number val = (left.count val - done.count val : Nat)
  known : ∀ val, index.data val = true → val ∈ left

theorem remaining_empty : Remaining [] [] .empty :=
  ⟨fun _ => rfl, by simp [data]⟩

variable {done : List MValue}

theorem data_increment {other : MValue} {amount : Int}
    (present : (index.increment val amount).data other = true) :
    other = val ∨ index.data other = true := by
  unfold data at present ⊢
  rw [get?_increment] at present
  split at present
  case isTrue same => exact Or.inl same
  case isFalse => exact Or.inr present

theorem Remaining.first (remaining : Remaining done [] index) (val : MValue) :
    Remaining (done ++ [val]) [] (index.increment val 1) := by
  refine ⟨fun other => ?_, fun other present => ?_⟩
  · rw [number_increment, remaining.number, count_append_val]
    simp
  · rw [mem_append, mem_singleton]
    exact (data_increment present).symm.imp_left (remaining.known other)

theorem Remaining.found (remaining : Remaining left done index) (found : index.number val ≠ 0) :
    Remaining left (done ++ [val]) (index.increment val (-1)) := by
  have here := remaining.number val
  refine ⟨fun other => ?_, fun other present => ?_⟩
  · rw [number_increment, count_append_val]
    by_cases same : other = val
    · subst same
      rw [if_pos rfl, if_pos rfl]
      omega
    · rw [if_neg same, if_neg same, remaining.number, Int.add_zero, add_zero]
  · rcases data_increment present with rfl | before
    · exact count_pos_iff.mp (by omega)
    · exact remaining.known other before

theorem Remaining.used (remaining : Remaining left done index) (used : ¬index.number val ≠ 0) :
    Remaining left (done ++ [val]) index := by
  refine ⟨fun other => ?_, remaining.known⟩
  have here := remaining.number other
  rw [count_append_val]
  by_cases same : other = val
  · subst same
    omega
  · rw [if_neg same, here, add_zero]

/-- The other indexes have the rows of the first operand that were not met yet. -/
def Unmet (left done : List MValue) (index : LocalArray MValue Unit) : Prop :=
  ∀ val, index.data val = true ↔ val ∈ left ∧ val ∉ done

theorem unmet_empty : Unmet [] [] .empty := by
  simp [Unmet, data]

variable {index : LocalArray MValue Unit}

theorem Unmet.first (unmet : Unmet done [] index) (val : MValue) :
    Unmet (done ++ [val]) [] (index.set val ()) := by
  intro other
  have here := unmet other
  unfold data at here ⊢
  by_cases same : other = val
  · simp [same]
  · simpa [same] using here

theorem Unmet.kill (unmet : Unmet left done index) (val : MValue) :
    Unmet left (done ++ [val]) (index.kill val) := by
  intro other
  have here := unmet other
  unfold data at here ⊢
  by_cases same : other = val
  · simp [same]
  · simpa [same] using here

theorem Unmet.absent (unmet : Unmet left done index)
    (absent : ¬index.data val = true) : Unmet left (done ++ [val]) index := by
  intro other
  have here := unmet other
  rw [here, mem_append, mem_singleton]
  constructor
  · rintro ⟨member, new⟩
    refine ⟨member, fun met => met.elim new ?_⟩
    rintro rfl
    exact absent (here.mpr ⟨member, new⟩)
  · rintro ⟨member, new⟩
    exact ⟨member, fun met => new (Or.inl met)⟩

/-! ## Rows that are written while the second operand is read -/

/-- `INTERSECTALL` has written what it took from its index. -/
structure IntersectAllInv (keys : SetKeys) (cursor : RowCursor) (left done : List MValue)
    (state : RowState Int) : Prop where
  remaining : Remaining left done state.index
  wrote : ∃ rows, Wrote keys cursor rows state ∧
    ∀ val, rows.count val = min (left.count val) (done.count val)

theorem IntersectAllInv.second {state : RowState Int} (val : MValue)
    (inv : IntersectAllInv keys cursor left done state) :
    IntersectAllInv keys cursor left (done ++ [val]) (intersectAllBody keys false val state) := by
  obtain ⟨remaining, rows, wrote, counts⟩ := inv
  have here := remaining.number val
  unfold intersectAllBody
  rw [if_neg (by decide)]
  split
  case isTrue found =>
    refine ⟨remaining.found found, rows ++ [val], (wrote.withIndex _).emit val, fun other => ?_⟩
    rw [count_append_val, count_append_val, counts]
    by_cases same : other = val
    · subst same
      rw [if_pos rfl]
      omega
    · rw [if_neg same, add_zero, add_zero]
  case isFalse used =>
    refine ⟨remaining.used used, rows, wrote, fun other => ?_⟩
    rw [count_append_val, counts]
    by_cases same : other = val
    · subst same
      omega
    · rw [if_neg same, add_zero]

theorem performs_intersectAll (operands : Operands keys cursor left right) :
    Performs .intersectAll keys cursor left right (intersectAll keys cursor) := by
  obtain ⟨state, ended, -, rows, wrote, counts⟩ :=
    exists_forInputs (intersectAllBody keys) operands (by
        intro isFirst val state id differs
        unfold intersectAllBody
        split
        · rfl
        · split
          · exact emit_cursor differs val _
          · rfl)
      (IntersectAllInv keys cursor)
      ⟨remaining_empty, [], wrote_start keys cursor, fun _ => rfl⟩
      (fun done val state ⟨remaining, rows, wrote, counts⟩ =>
        ⟨remaining.first val, rows, wrote.withIndex _, by simpa using counts⟩)
      (fun done val state inv => inv.second val)
  exact ⟨_, rows, congrArg _ ended, wrote.finish, counts⟩

/-- `INTERSECT` has written what it killed in its index. -/
structure IntersectInv (keys : SetKeys) (cursor : RowCursor) (left done : List MValue)
    (state : RowState Unit) : Prop where
  unmet : Unmet left done state.index
  wrote : ∃ rows, Wrote keys cursor rows state ∧
    ∀ val, rows.count val = if val ∈ left ∧ val ∈ done then 1 else 0

theorem IntersectInv.second {state : RowState Unit} (val : MValue)
    (inv : IntersectInv keys cursor left done state) :
    IntersectInv keys cursor left (done ++ [val]) (intersectBody keys false val state) := by
  obtain ⟨unmet, rows, wrote, counts⟩ := inv
  have here := unmet val
  unfold intersectBody
  rw [if_neg (by decide)]
  split
  case isTrue found =>
    refine ⟨unmet.kill val, rows ++ [val], (wrote.withIndex _).emit val, fun other => ?_⟩
    rw [count_append_val, counts]
    by_cases same : other = val
    · subst same
      simp [here.mp found]
    · simp [same]
  case isFalse absent =>
    refine ⟨unmet.absent absent, rows, wrote, fun other => ?_⟩
    rw [counts]
    by_cases same : other = val
    · subst same
      have met : other ∈ left → other ∈ done := by
        intro member
        by_contra new
        exact absent (here.mpr ⟨member, new⟩)
      by_cases member : other ∈ left
      · simp [met member]
      · simp [member]
    · simp [same]

theorem performs_intersect (operands : Operands keys cursor left right) :
    Performs .intersect keys cursor left right (intersect keys cursor) := by
  obtain ⟨state, ended, -, rows, wrote, counts⟩ :=
    exists_forInputs (intersectBody keys) operands (by
        intro isFirst val state id differs
        unfold intersectBody
        split
        · rfl
        · split
          · exact emit_cursor differs val _
          · rfl)
      (IntersectInv keys cursor)
      ⟨unmet_empty, [], wrote_start keys cursor, fun _ => rfl⟩
      (fun done val state ⟨unmet, rows, wrote, counts⟩ =>
        ⟨unmet.first val, rows, wrote.withIndex _, by simpa using counts⟩)
      (fun done val state inv => inv.second val)
  refine ⟨_, rows, congrArg _ ended, wrote.finish, fun val => ?_⟩
  simp [counts, SetOperation.multiplicity]

/-! ## Rows that are written from the index -/

theorem Wrote.emits (wrote : Wrote keys cursor rows state) (times : MValue → Nat)
    (vals : List MValue) :
    Wrote keys cursor (rows ++ vals.flatMap fun val => replicate (times val) val)
      (vals.foldl (fun state val => (RowState.emit keys val)^[times val] state) state) := by
  induction vals generalizing rows state with
  | nil => simpa using wrote
  | cons val rest ih =>
    have here : ∀ count, Wrote keys cursor (rows ++ replicate count val)
        ((RowState.emit keys val)^[count] state) := by
      intro count
      induction count with
      | zero => simpa using wrote
      | succ count ih =>
        rw [Function.iterate_succ_apply', replicate_succ', ← append_assoc]
        exact ih.emit val
    rw [flatMap_cons, ← append_assoc]
    exact ih (here (times val))

theorem count_flatMap_replicate (times : MValue → Nat) {vals : List MValue} (different : vals.Nodup)
    (val : MValue) :
    (vals.flatMap fun val => replicate (times val) val).count val =
      if val ∈ vals then times val else 0 := by
  induction vals with
  | nil => simp
  | cons first rest ih =>
    obtain ⟨fresh, different⟩ := nodup_cons.mp different
    rw [flatMap_cons, count_append, ih different, count_replicate]
    by_cases same : val = first
    · subst same
      simp [fresh]
    · simp [same, Ne.symm same]

/-- The rows that a loop over an index without the null string writes. -/
theorem exists_forWalked (wrote : Wrote keys cursor [] state) (times : MValue → Nat)
    (noNull : ¬state.index.data ⊥ = true) :
    ∃ rows, HasRows keys cursor rows ((state.index.forWalked
        (fun val state => (RowState.emit keys val)^[times val] state) state).finish keys) ∧
      ∀ val, rows.count val = if state.index.data val then times val else 0 := by
  rw [forWalked_eq_foldl]
  refine ⟨_, (wrote.emits times _).finish, fun val => ?_⟩
  rw [nil_append, count_flatMap_replicate times (Finset.sort_nodup ..)]
  simp only [Finset.mem_sort, Finset.mem_filter, mem_subs_iff_data]
  refine if_congr (and_iff_left_of_imp fun present => ?_) rfl rfl
  rw [bot_lt_iff_ne_bot]
  rintro rfl
  exact noNull present

variable (operands : Operands keys cursor left right) (noNull : ⊥ ∉ left)
include operands noNull

theorem performs_exceptAll :
    Performs .exceptAll keys cursor left right (exceptAll keys cursor) := by
  obtain ⟨state, ended, remaining, wrote⟩ :=
    exists_forInputs exceptAllBody operands (by
        intro isFirst val state id differs
        unfold exceptAllBody
        split
        · rfl
        · split <;> rfl)
      (fun left done state => Remaining left done state.index ∧ Wrote keys cursor [] state)
      ⟨remaining_empty, wrote_start keys cursor⟩
      (fun done val state ⟨remaining, wrote⟩ => ⟨remaining.first val, wrote.withIndex _⟩) (by
        rintro done val state ⟨remaining, wrote⟩
        unfold exceptAllBody
        rw [if_neg (by decide)]
        split
        case isTrue found => exact ⟨remaining.found found, wrote.withIndex _⟩
        case isFalse used => exact ⟨remaining.used used, wrote⟩)
  obtain ⟨rows, has, counts⟩ := exists_forWalked wrote (fun val => (state.index.number val).toNat)
    fun present => noNull (remaining.known _ present)
  refine ⟨_, rows, ?_, has, fun val => ?_⟩
  · rw [exceptAll, ended]
    rfl
  · have number := remaining.number val
    rw [counts]
    split
    case isTrue =>
      rw [number]
      rfl
    case isFalse absent =>
      rw [LocalArray.number, not_isSome_iff_eq_none.mp absent] at number
      exact Int.natCast_inj.mp number

theorem performs_except :
    Performs .except keys cursor left right (except keys cursor) := by
  obtain ⟨state, ended, unmet, wrote⟩ :=
    exists_forInputs exceptBody operands (by
        intro isFirst val state id differs
        unfold exceptBody
        split <;> rfl)
      (fun left done state => Unmet left done state.index ∧ Wrote keys cursor [] state)
      ⟨unmet_empty, wrote_start keys cursor⟩
      (fun done val state ⟨unmet, wrote⟩ => ⟨unmet.first val, wrote.withIndex _⟩)
      (fun done val state ⟨unmet, wrote⟩ => ⟨unmet.kill val, wrote.withIndex _⟩)
  obtain ⟨rows, has, counts⟩ := exists_forWalked wrote (fun _ => 1)
    fun present => noNull ((unmet _).mp present).1
  refine ⟨_, rows, ?_, has, fun val => ?_⟩
  · rw [except, ended]
    rfl
  · rw [counts]
    refine if_congr ?_ rfl rfl
    rw [unmet, count_pos_iff, count_eq_zero]

/-- Each helper for numbered rows performs its set operation on rows that are not the null string,
which the last loops of `EXCEPTALL` and `EXCEPT` pass over. -/
theorem performs_rowHelper (operation : SetOperation) :
    Performs operation keys cursor left right (operation.rowHelper keys cursor) := by
  cases operation with
  | unionAll => exact performs_unionAll operands
  | union => exact performs_union operands
  | intersectAll => exact performs_intersectAll operands
  | intersect => exact performs_intersect operands
  | exceptAll => exact performs_exceptAll operands noNull
  | except => exact performs_except operands noNull

end Octo.PlanHelpers
