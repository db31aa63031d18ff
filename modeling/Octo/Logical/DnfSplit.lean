import Octo.Logical.NormalFormMeaning

/-!
# Splitting a WHERE clause into sibling plans

When the normal form of a WHERE clause is a disjunction, `optimize_logical_plan` copies the query
once for every term of the OR list and combines the copies by `LP_SET_DNF` operations. Each copy
has its term as its WHERE clause and is optimized in turn, so that a term which is itself a
disjunction is split again. The number of disjuncts that a clause expands to does not change under
normalisation and bounds the recursion.
-/
namespace Octo.Logical

open Kleene List LogicalPlan Nat

/-- The loop over the OR list: the WHERE clauses of the copies in the order of the operands of the
`LP_SET_DNF` operations built so far, and the clause that the original plan keeps at the end. -/
def setDnfOperands : List LogicalPlan → LogicalPlan → List LogicalPlan
  | copies, .booleanOr left right => setDnfOperands (left :: copies) right
  | copies, cur => copies ++ [cur]

/-- Every leaf counts as one disjunct. -/
def disjunctLeaves : LeafWeight Nat where
  plain _ _ _ := 1
  kept _ _ := 1
  kept_even _ _ := rfl
  plain_flip _ _ := rfl

/-- The number of disjuncts of the fully expanded plan. -/
def LogicalPlan.disjunctCount (plan : LogicalPlan) : Nat := plan.weigh disjunctLeaves false

theorem one_le_weigh_disjunctLeaves (odd : Bool) (plan : LogicalPlan) :
    1 ≤ plan.weigh disjunctLeaves odd := by
  induction plan generalizing odd with
  | booleanNot operand ih =>
    rw [weigh]
    split
    · exact le_refl 1
    · exact ih _
  | booleanAnd left right leftIh rightIh =>
    rw [weigh]
    split
    · exact le_add_right_of_le (leftIh odd)
    · exact Nat.mul_pos (leftIh odd) (rightIh odd)
  | booleanOr left right leftIh rightIh =>
    rw [weigh]
    split
    · exact Nat.mul_pos (leftIh odd) (rightIh odd)
    · exact le_add_right_of_le (leftIh odd)
  | leaf type operands => exact le_refl 1

section

variable {Weight : Type*} [CommSemiring Weight]

/-- The copies together have the weight of the disjunction. -/
theorem weighAny_setDnfOperands (leaves : LeafWeight Weight) (copies : List LogicalPlan)
    (cur : LogicalPlan) :
    weighAny leaves (setDnfOperands copies cur) =
      weighAny leaves copies + cur.weigh leaves false := by
  fun_induction setDnfOperands copies cur with
  | case1 copies left right ih => rw [ih, weighAny_cons, weigh_booleanOr, add_assoc, add_left_comm]
  | case2 copies cur => simp

end

theorem length_lt_length_setDnfOperands (copies : List LogicalPlan) (cur : LogicalPlan) :
    copies.length < (setDnfOperands copies cur).length := by
  fun_induction setDnfOperands copies cur with
  | case1 copies left right ih => exact lt_trans (lt_succ_self _) ih
  | case2 copies cur => simp

variable {plan root left right : LogicalPlan}
  (normal : lpMakeNormalDisjunctiveForm root = .booleanOr left right)

/-- A term leaves at least one disjunct to every other term. -/
theorem disjunctCount_add_length_le {plans : List LogicalPlan} (member : plan ∈ plans) :
    plan.disjunctCount + plans.length ≤ weighAny disjunctLeaves plans + 1 := by
  have others : ∀ rest : List LogicalPlan, rest.length ≤ weighAny disjunctLeaves rest := by
    intro rest
    induction rest with
    | nil => exact le_refl 0
    | cons first rest ih =>
      have := one_le_weigh_disjunctLeaves false first
      rw [weighAny_cons, length_cons]
      omega
  induction plans with
  | nil => cases member
  | cons first rest ih =>
    rw [weighAny_cons, length_cons]
    rcases mem_cons.mp member with rfl | inRest
    · have := others rest
      rw [disjunctCount]
      omega
    · have := ih inRest
      have := one_le_weigh_disjunctLeaves false first
      omega

include normal in
/-- The WHERE clauses of the copies have fewer disjuncts than the clause that is split. -/
theorem disjunctCount_lt_of_mem_setDnfOperands
    (member : plan ∈ setDnfOperands [left] right) : plan.disjunctCount < root.disjunctCount := by
  have kept := weigh_lpMakeNormalDisjunctiveForm disjunctLeaves root
  have total := weighAny_setDnfOperands disjunctLeaves [left] right
  have bound := disjunctCount_add_length_le member
  have several := length_lt_length_setDnfOperands [left] right
  rw [normal, weigh_booleanOr] at kept
  rw [weighAny_cons, weighAny_nil] at total
  rw [length_singleton] at several
  rw [disjunctCount] at *
  rw [disjunctCount]
  omega

/-- The WHERE clauses of the sibling plans that `optimize_logical_plan` splits a query into, in the
order in which the plans run. A query that is not split has one. -/
def dnfWheres (root : LogicalPlan) : List LogicalPlan :=
  match _normal : lpMakeNormalDisjunctiveForm root with
  | .booleanOr left right =>
    (setDnfOperands [left] right).attach.flatMap fun copy => dnfWheres copy.1
  | cur => [cur]
termination_by root.disjunctCount
decreasing_by exact disjunctCount_lt_of_mem_setDnfOperands _normal copy.2

/-! ## The siblings together mean the normal form -/

section

variable {Weight : Type*} [CommSemiring Weight]

theorem weighAny_flatMap {Item : Type*} (leaves : LeafWeight Weight) (items : List Item)
    {plan : Item → LogicalPlan} {split : Item → List LogicalPlan}
    (kept : ∀ item, weighAny leaves (split item) = (plan item).weigh leaves false) :
    weighAny leaves (items.flatMap split) = weighAny leaves (items.map plan) := by
  induction items with
  | nil => rfl
  | cons first rest ih =>
    rw [flatMap_cons, weighAny_append, map_cons, weighAny_cons, kept first, ih]

/-- Splitting keeps every weight. -/
theorem weighAny_dnfWheres (leaves : LeafWeight Weight) (root : LogicalPlan) :
    weighAny leaves (dnfWheres root) = root.weigh leaves false := by
  fun_induction dnfWheres root with
  | case1 root left right normal ih =>
    rw [weighAny_flatMap leaves _ ih, attach_map_subtype_val, weighAny_setDnfOperands,
      weighAny_cons, weighAny_nil, add_zero, ← weigh_booleanOr, ← normal,
      weigh_lpMakeNormalDisjunctiveForm]
  | case2 root _ => rw [weighAny_cons, weighAny_nil, add_zero, weigh_lpMakeNormalDisjunctiveForm]

end

theorem settled_of_mem_dnfWheres (member : plan ∈ dnfWheres root) :
    plan.Settled := by
  fun_induction dnfWheres root with
  | case1 root left right normal ih =>
    obtain ⟨copy, _, inCopy⟩ := mem_flatMap.mp member
    exact ih copy inCopy
  | case2 root _ =>
    rw [mem_singleton.mp member]
    exact settled_lpMakeNormalDisjunctiveForm root

end Octo.Logical
