import Octo.PlanHelpers.SetOperationsCorrect

/-!
# Nested set operations

A set operation has no physical plan of its own: it joins the `set_oper_list` of the last query
below it. The code that is emitted runs the queries one after the other, and behind each of them the
set operations of its plan. Here every query has one plan of its own: no OR splits it into siblings
(`LP_SET_DNF`), no view gives the same plan twice, it is not deferred, and its rows are numbered.
-/
namespace Octo.PlanHelpers

open Function List ResultRow

/-- A logical plan, with the output keys of its queries and set operations. -/
inductive SetPlan
  | query (uniqueId : Nat)
  | setOperation (type : SetOperation) (left right : SetPlan) (outputId : Nat)

/-- `SetOperType`. -/
structure SetOper where
  type : SetOperation
  inputId1 : Nat
  inputId2 : Nat
  outputId : Nat

/-- `PhysicalPlan`. The set operation that was added last is the head of its list. -/
structure PhysicalPlan where
  outputKey : Nat
  setOperList : List SetOper

/-- The key that an operand of a set operation is read from. -/
def PhysicalPlan.resultId (plan : PhysicalPlan) : Nat :=
  (plan.setOperList.head?.map (·.outputId)).getD plan.outputKey

/-- What a line of the emitted code calls. -/
inductive PlanCall
  | plan (outputKey : Nat)
  | helper (oper : SetOper)

/-- The code for a list of plans. Set operations are called from the tail of their list on. -/
def emitPhysicalPlan (plans : List PhysicalPlan) : List PlanCall :=
  plans.flatMap fun plan => .plan plan.outputKey :: plan.setOperList.reverse.map .helper

/-- The tables after a call. A query leaves its own table, and helpers are for different keys. -/
def PlanCall.run (tables cursor : RowCursor) : PlanCall → Option RowCursor
  | plan outputKey => some (update cursor outputKey (tables outputKey))
  | helper ⟨type, inputId1, inputId2, outputId⟩ =>
    if differ : inputId1 ≠ inputId2 ∧ outputId ≠ inputId1 ∧ outputId ≠ inputId2 then
      type.rowHelper ⟨inputId1, inputId2, outputId, differ.1, differ.2.1, differ.2.2⟩ cursor
    else none

namespace SetPlan

/-- The plans that are put in front of the list, the last of them, which is returned, apart. The
right operand comes first, so that the plans of the left one stand before its plans. -/
def generatePhysicalPlan : SetPlan → List PhysicalPlan × PhysicalPlan
  | query uniqueId => ([], ⟨uniqueId, []⟩)
  | setOperation type left right outputId =>
    let (behind, out) := right.generatePhysicalPlan
    let (front, prev) := left.generatePhysicalPlan
    let oper := ⟨type, prev.resultId, out.resultId, outputId⟩
    (front ++ prev :: behind, { out with setOperList := oper :: out.setOperList })

/-- The code for a logical plan. -/
def calls (plan : SetPlan) : List PlanCall :=
  emitPhysicalPlan (plan.generatePhysicalPlan.1 ++ [plan.generatePhysicalPlan.2])

/-- The output key of the outermost plan. -/
def outputId : SetPlan → Nat
  | query uniqueId => uniqueId
  | setOperation _ _ _ outputId => outputId

/-- All output keys. -/
def ids : SetPlan → List Nat
  | query uniqueId => [uniqueId]
  | setOperation _ left right outputId => outputId :: (left.ids ++ right.ids)

/-- How often a row is in the result that is `times id` times in the result of a query. -/
def multiplicity (times : Nat → Nat) : SetPlan → Nat
  | query uniqueId => times uniqueId
  | setOperation type left right _ =>
    type.multiplicity (left.multiplicity times) (right.multiplicity times)

theorem multiplicity_zero (plan : SetPlan) : plan.multiplicity (fun _ => 0) = 0 := by
  induction plan with
  | query => rfl
  | setOperation type _ _ _ left right => rw [multiplicity, left, right, type.multiplicity_zero]

theorem outputId_mem_ids (plan : SetPlan) : plan.outputId ∈ plan.ids := by
  cases plan <;> simp [outputId, ids]

theorem resultId_generatePhysicalPlan (plan : SetPlan) :
    plan.generatePhysicalPlan.2.resultId = plan.outputId := by
  cases plan <;> rfl

/-- The helper is called behind the code for both operands. -/
theorem calls_setOperation (type : SetOperation) (left right : SetPlan) (outputId : Nat) :
    (setOperation type left right outputId).calls =
      left.calls ++ (right.calls ++ [.helper ⟨type, left.outputId, right.outputId, outputId⟩]) := by
  simp [calls, emitPhysicalPlan, generatePhysicalPlan, resultId_generatePhysicalPlan]

variable (rows : Nat → List ResultRow)

/-- For every nesting of set operations and all results of its queries: the emitted code runs to its
end, leaves the multiset of the whole plan under its key, and changes no table of another plan. -/
theorem exists_run_calls (plan : SetPlan) (different : plan.ids.Nodup) (cursor : RowCursor) :
    ∃ (result : RowCursor) (vals : List MValue),
      plan.calls.foldlM (PlanCall.run fun id => .ofRows ((rows id).map node)) cursor =
        some result ∧ (result plan.outputId).Holds vals ∧
      (∀ val, vals.count val =
        plan.multiplicity fun id => ((rows id).map node).count val) ∧
      ∀ id ∉ plan.ids, result id = cursor id := by
  induction plan generalizing cursor with
  | query uniqueId =>
    refine ⟨update cursor uniqueId _, _, rfl, ?_, fun _ => rfl, fun id other => ?_⟩
    · rw [outputId, update_self]
      exact RowTable.ofRows_holds _
    · exact update_of_ne (by simpa [ids] using other) _ _
  | setOperation type left right outputId leftRuns rightRuns =>
    simp only [ids, nodup_cons, mem_append, not_or, nodup_append] at different
    obtain ⟨⟨notLeft, notRight⟩, leftNodup, rightNodup, apart⟩ := different
    obtain ⟨first, leftVals, leftEnded, leftHolds, leftCounts, leftOthers⟩ :=
      leftRuns leftNodup cursor
    obtain ⟨second, rightVals, rightEnded, rightHolds, rightCounts, rightOthers⟩ :=
      rightRuns rightNodup first
    have differ := apart _ left.outputId_mem_ids _ right.outputId_mem_ids
    have fromLeft := ne_of_mem_of_not_mem left.outputId_mem_ids notLeft
    have fromRight := ne_of_mem_of_not_mem right.outputId_mem_ids notRight
    -- The code of the right operand leaves the result of the left one alone.
    rw [← rightOthers _ fun member => apart _ left.outputId_mem_ids _ member rfl] at leftHolds
    have noNull : ⊥ ∉ leftVals := by
      have absent : ∀ id, ((rows id).map node).count ⊥ = 0 := by
        simp [count_eq_zero, node_ne_bot]
      rw [← count_eq_zero, leftCounts, funext absent, multiplicity_zero]
    have operands : Operands ⟨_, _, outputId, differ, fromLeft.symm, fromRight.symm⟩ second leftVals
        rightVals := ⟨leftHolds, rightHolds⟩
    obtain ⟨result, vals, ended, ⟨holds, others⟩, counts⟩ :=
      performs_rowHelper operands noNull type
    refine ⟨result, vals, ?_, holds, fun val => ?_, fun id other => ?_⟩
    · simp [calls_setOperation, foldlM_append, leftEnded, rightEnded, PlanCall.run, differ,
        fromLeft.symm, fromRight.symm, ended]
    · rw [counts, leftCounts, rightCounts, multiplicity]
    · simp only [ids, mem_cons, mem_append, not_or] at other
      rw [others id other.1, rightOthers id other.2.2, leftOthers id other.2.1]

/-- A row with NULL. -/
def nullRow : ResultRow := ⟨[none], cons_ne_nil _ _, by simp [IsColumn]⟩

/-- A row with the empty string and a letter. -/
def letterRow : ResultRow := ⟨[some [], some [97]], cons_ne_nil _ _, by simp [IsColumn]⟩

/-- `SELECT .. EXCEPT ALL (SELECT .. UNION SELECT ..)`: of three NULLs and a letter, the NULL that
is in both queries of the UNION is taken away once. -/
theorem exists_run_calls_exceptAll :
    let plan := setOperation .exceptAll (query 1) (setOperation .union (query 2) (query 3) 4) 5
    let rows : Nat → List ResultRow := fun id =>
      if id = 1 then [nullRow, letterRow, nullRow, nullRow] else [nullRow]
    ∃ (result : RowCursor) (vals : List MValue),
      plan.calls.foldlM (PlanCall.run fun id => .ofRows ((rows id).map node)) (fun _ => .killed) =
          some result ∧
        (result 5).Holds vals ∧ vals.count nullRow.node = 2 ∧ vals.count letterRow.node = 1 := by
  intro plan rows
  obtain ⟨result, vals, ended, holds, counts, -⟩ :=
    exists_run_calls rows plan (by decide) fun _ => .killed
  refine ⟨result, vals, ended, holds, ?_, ?_⟩
  · rw [counts]
    decide +kernel
  · rw [counts]
    decide +kernel

end SetPlan

end Octo.PlanHelpers
