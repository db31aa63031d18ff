import Octo.Foundation.SumOfProducts
import Octo.Logical.NormalFormShape

/-!
# What the split of a WHERE clause keeps

The recursion of `optimize_logical_plan` splits the terms of an OR list again until none of them has
an OR. The clauses of the plans at its leaves are the terms of the clause expanded as a sum of
products, each of them once. Their disjunction has the value of the clause when no negation is lost
on the way.
-/
namespace Octo.Logical

open Kleene List
open Octo.Foundation SumOfProducts

/-! ## Clauses without OR -/

theorem length_orList_pos (plan : LogicalPlan) : 0 < (orList plan).length := by
  obtain ⟨initial, last, listed⟩ := orList_eq_append plan
  rw [listed, length_append, length_singleton]
  omega

theorem length_combinations (left right : LogicalPlan) :
    (combinations left right).length = (orList left).length * (orList right).length := by
  rw [combinations]
  induction orList left with
  | nil => simp
  | cons term rest ih =>
    rw [flatMap_cons, length_append, ih, length_map, length_cons, Nat.succ_mul, Nat.add_comm]

/-- The conjunction of two normal forms is an OR when one of them is. -/
theorem isOr_of_distribute {left right : LogicalPlan}
    (single : (distribute left right).isOr = false) :
    left.isOr = false ∧ right.isOr = false := by
  obtain ⟨item, rest, listed, built⟩ := exists_distribute_eq_anyOf left right
  have count : (orList left).length * (orList right).length = 1 := by
    cases rest with
    | nil =>
      rw [← length_combinations, ← length_map Prod.snd, listed, length_singleton]
    | cons next rest =>
      rw [built] at single
      cases single
  have short (plan : LogicalPlan) (one : (orList plan).length = 1) : plan.isOr = false := by
    cases plan with
    | booleanOr first second =>
      have := length_orList_pos second
      rw [orList, length_cons] at one
      omega
    | _ => rfl
  exact ⟨short left (Nat.eq_one_of_mul_eq_one_right count),
    short right (Nat.eq_one_of_mul_eq_one_left count)⟩

/-- A normal form that is no OR has no OR in it. -/
theorem orFree_lpMakeNormalDisjunctiveForm {root : LogicalPlan}
    (single : (lpMakeNormalDisjunctiveForm root).isOr = false) :
    (lpMakeNormalDisjunctiveForm root).orFree = true := by
  fun_induction lpMakeNormalDisjunctiveForm root with
  | case1 root left right applied leftIh rightIh => cases single
  | case2 root left right applied leftIh rightIh =>
    obtain ⟨leftSingle, rightSingle⟩ := isOr_of_distribute single
    rw [← rightNested_of_isOr_eq_false single, rightNested_distribute,
      rightNested_of_isOr_eq_false leftSingle, rightNested_of_isOr_eq_false rightSingle]
    exact ⟨leftIh leftSingle, rightIh rightSingle⟩
  | case3 root notOr notAnd =>
    cases applied : lpApplyNot root 0 with
    | booleanOr left right => exact absurd applied (notOr left right)
    | booleanAnd left right => exact absurd applied (notAnd left right)
    | leaf type operands => rfl
    | booleanNot operand =>
      rw [LogicalPlan.orFree]
      exact orFree_of_keepsNot (keepsNot_of_lpApplyNot_eq_booleanNot applied)

/-- No leaf plan has an OR in its clause. -/
theorem orFree_of_mem_dnfWheres {root plan : LogicalPlan} (member : plan ∈ dnfWheres root) :
    plan.orFree = true := by
  fun_induction dnfWheres root with
  | case1 root left right normal ih =>
    obtain ⟨copy, _, inCopy⟩ := mem_flatMap.mp member
    exact ih copy inCopy
  | case2 root notOr =>
    rw [mem_singleton.mp member]
    apply orFree_lpMakeNormalDisjunctiveForm
    cases normal : lpMakeNormalDisjunctiveForm root with
    | booleanOr left right => exact absurd normal (notOr left right)
    | _ => rfl

/-! ## The disjuncts -/

/-- The conjuncts of a clause without OR. -/
def LogicalPlan.conjuncts : LogicalPlan → Multiset LogicalPlan
  | .booleanAnd left right => left.conjuncts + right.conjuncts
  | plan => {plan}

/-- Every leaf is a product of its own, with the negation that is pushed into it. -/
def literalLeaves : LeafWeight (SumOfProducts LogicalPlan) where
  plain odd type operands :=
    .product {.leaf (if odd then type.flip.getD type else type) operands}
  kept odd plan := .product {if odd then .booleanNot plan else plan}
  kept_even _ _ := rfl
  plain_flip _ _ := rfl

/-- The disjuncts that a clause expands to when its negations are pushed down. -/
def LogicalPlan.disjuncts (plan : LogicalPlan) : Multiset (Multiset LogicalPlan) :=
  (plan.weigh literalLeaves false).terms

/-- A clause without OR is the product of its conjuncts. -/
theorem weigh_literalLeaves {plan : LogicalPlan} (settled : plan.Settled)
    (single : plan.orFree = true) :
    plan.weigh literalLeaves false = .product plan.conjuncts := by
  induction plan with
  | booleanNot operand _ =>
    have keeps : operand.keepsNot = true := settled
    rw [LogicalPlan.weigh, if_pos keeps]
    rfl
  | booleanAnd left right leftIh rightIh =>
    rw [LogicalPlan.orFree, Bool.and_eq_true] at single
    rw [weigh_booleanAnd, leftIh settled.1 single.1, rightIh settled.2 single.2,
      product_mul_product, LogicalPlan.conjuncts]
  | booleanOr left right _ _ => cases single
  | leaf type operands => rfl

/-- The leaf plans have the disjuncts of the clause, each of them once. -/
theorem map_conjuncts_dnfWheres (root : LogicalPlan) :
    ((dnfWheres root).map LogicalPlan.conjuncts : Multiset (Multiset LogicalPlan)) =
      root.disjuncts := by
  have products : (dnfWheres root).map (LogicalPlan.weigh literalLeaves false) =
      (dnfWheres root).map fun plan => .product plan.conjuncts :=
    map_congr_left fun plan member =>
      weigh_literalLeaves (settled_of_mem_dnfWheres member) (orFree_of_mem_dnfWheres member)
  rw [LogicalPlan.disjuncts, ← weighAny_dnfWheres, weighAny, products, terms_sum_map]

/-! ## The value of the split -/

/-- The value of the disjunction of some clauses. -/
def anyEval (assignment : Assignment) (plans : List LogicalPlan) : Truth :=
  plans.foldr (fun plan value => (plan.eval assignment).or value) .false

theorem anyEval_eq_weighAny (assignment : Assignment) {plans : List LogicalPlan}
    (settled : ∀ plan ∈ plans, plan.Settled) :
    anyEval assignment plans = weighAny (truthLeaves assignment) plans := by
  induction plans with
  | nil => rfl
  | cons plan plans ih =>
    rw [weighAny_cons, ← eval_eq_weigh_of_settled assignment (settled plan mem_cons_self),
      ← ih (forall_mem_of_forall_mem_cons settled)]
    rfl

theorem anyEval_dnfWheres (assignment : Assignment) (root : LogicalPlan) :
    anyEval assignment (dnfWheres root) = pushedValue assignment false root := by
  rw [anyEval_eq_weighAny assignment fun plan => settled_of_mem_dnfWheres, weighAny_dnfWheres,
    pushedValue_eq_weigh]

/-- The split of a clause is right: its plans have no OR, they have the disjuncts of the clause, and
their disjunction has the value of the clause. -/
structure SplitsExactly (root : LogicalPlan) : Prop where
  orFree : ∀ plan ∈ dnfWheres root, plan.orFree = true
  disjuncts : ((dnfWheres root).map LogicalPlan.conjuncts : Multiset (Multiset LogicalPlan)) =
    root.disjuncts
  value : ∀ assignment, anyEval assignment (dnfWheres root) = root.eval assignment

/-- The split of a clause whose leaves are distinct nodes is right exactly when no leaf without a
complement is reached from an AND or OR under an odd number of negations. -/
theorem dnfWheres_splitsExactly_iff (root : LogicalPlan) (distinct : root.addresses.Nodup) :
    SplitsExactly root ↔ root.negatable false = true := by
  constructor
  · intro exact
    cases lossy : root.negatable false with
    | true => rfl
    | false =>
      obtain ⟨chosen, reached⟩ := separable_of_not_negatable distinct lossy
      have same := exact.value (literalAssignment chosen)
      obtain ⟨pushedTrue, valueFalse⟩ := Prod.mk.inj reached
      rw [anyEval_dnfWheres, pushedTrue] at same
      rw [← same] at valueFalse
      cases valueFalse
  · intro negatable
    refine ⟨fun plan => orFree_of_mem_dnfWheres, map_conjuncts_dnfWheres root, fun assignment => ?_⟩
    rw [anyEval_dnfWheres, pushedValue_of_negatable assignment negatable, Truth.negateIf_false]

theorem negatedConjunction_splitsExactly :
    negatedConjunction.addresses.Nodup ∧ SplitsExactly negatedConjunction :=
  ⟨by decide, (dnfWheres_splitsExactly_iff negatedConjunction (by decide)).mpr (by decide)⟩

/-- A row with `name LIKE 'x%'` and `id = 1` fails `NOT (name LIKE 'x%' AND id = 1)` but satisfies
one of the plans that the clause is split into. -/
theorem negatedPattern_not_splitsExactly :
    negatedPattern.eval (literalAssignment fun _ => .true) = .false ∧
      anyEval (literalAssignment fun _ => .true) (dnfWheres negatedPattern) = .true := by
  rw [anyEval_dnfWheres]
  decide

end Octo.Logical
