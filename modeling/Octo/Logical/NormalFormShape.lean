import Octo.Logical.DnfSplit

/-!
# The shape of the normal form

A right nested disjunction is an OR list whose terms have no OR in them. The normal form has this
shape only when the ORs that are left after the negations are pushed down nest to the right: an OR
node keeps its two normalised operands, so an OR in its left operand stays there, and the
distribution takes such an operand as one term.
-/
namespace Octo.Logical

open List LogicalPlan

/-! ## Right nested disjunctions -/

/-- There is no OR in the plan. -/
def LogicalPlan.orFree : LogicalPlan → Bool
  | .booleanNot operand => operand.orFree
  | .booleanAnd left right => left.orFree && right.orFree
  | .booleanOr _ _ => false
  | .leaf _ _ => true

/-- The plan is an OR. -/
def LogicalPlan.isOr : LogicalPlan → Bool
  | .booleanOr _ _ => true
  | _ => false

/-- No OR is the left operand of an OR or stands below an AND or a NOT. -/
def LogicalPlan.rightNested : LogicalPlan → Bool
  | .booleanNot operand => operand.orFree
  | .booleanAnd left right => left.orFree && right.orFree
  | .booleanOr left right => !left.isOr && left.rightNested && right.rightNested
  | .leaf _ _ => true

/-- Below `odd` many negations, every left operand of a node that becomes an OR has one disjunct. -/
def LogicalPlan.orsNestRight : Bool → LogicalPlan → Bool
  | odd, .booleanNot operand => operand.keepsNot || operand.orsNestRight (!odd)
  | odd, .booleanAnd left right =>
    if odd then left.weigh disjunctLeaves odd == 1 && right.orsNestRight odd
    else left.orsNestRight odd && right.orsNestRight odd
  | odd, .booleanOr left right =>
    if odd then left.orsNestRight odd && right.orsNestRight odd
    else left.weigh disjunctLeaves odd == 1 && right.orsNestRight odd
  | _, .leaf _ _ => true

variable {plan : LogicalPlan} (left right : LogicalPlan)

theorem orFree_of_keepsNot (keeps : plan.keepsNot = true) : plan.orFree = true := by
  obtain ⟨type, operands, rfl⟩ := exists_leaf_of_keepsNot keeps
  rfl

/-- A settled plan without an OR has one disjunct, and only such a plan. -/
theorem orFree_iff_weigh (settled : plan.Settled) :
    plan.orFree = true ↔ plan.weigh disjunctLeaves false = 1 := by
  induction plan with
  | booleanNot operand _ =>
    have keeps : operand.keepsNot = true := settled
    rw [orFree, orFree_of_keepsNot keeps, weigh, if_pos keeps]
    exact iff_of_true rfl rfl
  | booleanAnd left right leftIh rightIh =>
    rw [orFree, Bool.and_eq_true, leftIh settled.1, rightIh settled.2, weigh_booleanAnd]
    constructor
    · rintro ⟨leftOne, rightOne⟩
      rw [leftOne, rightOne, Nat.mul_one]
    · exact fun one => ⟨Nat.eq_one_of_mul_eq_one_right one, Nat.eq_one_of_mul_eq_one_left one⟩
  | booleanOr left right _ _ =>
    have := one_le_weigh_disjunctLeaves false left
    have := one_le_weigh_disjunctLeaves false right
    rw [weigh_booleanOr]
    exact iff_of_false Bool.false_ne_true (by omega)
  | leaf type operands => exact iff_of_true rfl rfl

theorem orList_of_isOr_eq_false (term : plan.isOr = false) : orList plan = [(plan, false)] := by
  cases plan with
  | booleanOr left right => cases term
  | _ => rfl

theorem rightNested_of_isOr_eq_false (term : plan.isOr = false) :
    plan.rightNested = plan.orFree := by
  cases plan with
  | booleanOr left right => cases term
  | _ => rfl

/-- A right nested disjunction is an OR list of terms without an OR. -/
theorem rightNested_iff_orList (plan : LogicalPlan) :
    plan.rightNested = true ↔ ∀ term ∈ orList plan, term.1.orFree = true := by
  cases isOr : plan.isOr with
  | false =>
    rw [orList_of_isOr_eq_false isOr, forall_mem_singleton, rightNested_of_isOr_eq_false isOr]
  | true =>
    obtain ⟨left, right, rfl⟩ : ∃ left right, plan = .booleanOr left right := by
      cases plan with
      | booleanOr left right => exact ⟨left, right, rfl⟩
      | _ => cases isOr
    have first : (!left.isOr && left.rightNested) = true ↔ left.orFree = true := by
      cases left with
      | booleanOr _ _ => exact iff_of_false Bool.false_ne_true Bool.false_ne_true
      | _ => rfl
    rw [rightNested, Bool.and_eq_true, first, rightNested_iff_orList right, orList, forall_mem_cons]

/-! ## The normal form -/

theorem orList_anyOf {item : LogicalPlan} {rest : List LogicalPlan}
    (terms : ∀ plan ∈ item :: rest, plan.isOr = false) :
    (orList (anyOf item rest)).map Prod.fst = item :: rest := by
  induction rest generalizing item with
  | nil =>
    rw [anyOf, orList_of_isOr_eq_false (terms item mem_cons_self), map_singleton]
  | cons next rest ih =>
    rw [anyOf, orList, map_cons, ih (forall_mem_of_forall_mem_cons terms)]

theorem forall_orList_distribute (property : LogicalPlan → Prop) :
    (∀ term ∈ orList (distribute left right), property term.1) ↔
      ∀ l ∈ orList left, ∀ r ∈ orList right, property (.booleanAnd l.1 r.1) := by
  obtain ⟨item, rest, listed, built⟩ := exists_distribute_eq_anyOf left right
  have terms : (orList (distribute left right)).map Prod.fst =
      (combinations left right).map Prod.snd := by
    rw [listed, built]
    apply orList_anyOf
    rw [← listed]
    intro plan member
    obtain ⟨l, -, r, -, rfl⟩ := mem_combinations.mp member
    rfl
  rw [← forall_mem_map (P := property), terms]
  constructor
  · intro each l inLeft r inRight
    exact each _ (mem_combinations.mpr ⟨l, inLeft, r, inRight, rfl⟩)
  · intro each plan member
    obtain ⟨l, inLeft, r, inRight, rfl⟩ := mem_combinations.mp member
    exact each l inLeft r inRight

/-- A conjunction of normal forms is right nested exactly when both of them are. -/
theorem rightNested_distribute :
    (distribute left right).rightNested = true ↔
      left.rightNested = true ∧ right.rightNested = true := by
  obtain ⟨leftInitial, leftLast, leftListed⟩ := orList_eq_append left
  obtain ⟨rightInitial, rightLast, rightListed⟩ := orList_eq_append right
  have someLeft : (leftLast, false) ∈ orList left := by rw [leftListed]; simp
  have someRight : (rightLast, false) ∈ orList right := by rw [rightListed]; simp
  rw [rightNested_iff_orList, rightNested_iff_orList, rightNested_iff_orList,
    forall_orList_distribute left right fun plan => plan.orFree = true]
  simp only [orFree, Bool.and_eq_true]
  constructor
  · intro each
    exact ⟨fun l inLeft => (each l inLeft _ someRight).1,
      fun r inRight => (each _ someLeft r inRight).2⟩
  · rintro ⟨eachLeft, eachRight⟩ l inLeft r inRight
    exact ⟨eachLeft l inLeft, eachRight r inRight⟩

/-- Pushing negations down keeps how the ORs nest. -/
theorem orsNestRight_lpApplyNot (plan : LogicalPlan) (count : Nat) :
    (lpApplyNot plan count).orsNestRight false = plan.orsNestRight (decide (count % 2 = 1)) := by
  induction plan generalizing count with
  | booleanNot operand ih =>
    rw [lpApplyNot_booleanNot]
    by_cases keeps : operand.keepsNot = true
    · obtain ⟨type, operands, rfl⟩ := exists_leaf_of_keepsNot keeps
      by_cases odd : count % 2 = 1 <;> simp [orsNestRight, keeps, odd]
    · rw [if_neg keeps, ih, odd_succ]
      simp [orsNestRight, keeps]
  | booleanAnd left right leftIh rightIh | booleanOr left right leftIh rightIh =>
    by_cases odd : count % 2 = 1
    · simp [lpApplyNot, orsNestRight, odd, leftIh, rightIh, weigh_lpApplyNot]
    · simp [lpApplyNot, odd]
  | leaf type operands =>
    by_cases odd : count % 2 = 1 <;> simp [lpApplyNot, orsNestRight, odd]

/-- The normal form is right nested exactly when the ORs of the clause nest to the right. -/
theorem rightNested_normalForm (root : LogicalPlan) :
    (lpMakeNormalDisjunctiveForm root).rightNested = true ↔ root.orsNestRight false = true := by
  fun_induction lpMakeNormalDisjunctiveForm root with
  | case1 root left right applied leftIh rightIh =>
    have pushed := orsNestRight_lpApplyNot root 0
    rw [applied] at pushed
    have first : (lpMakeNormalDisjunctiveForm left).orFree = true ↔
        left.weigh disjunctLeaves false = 1 := by
      rw [orFree_iff_weigh (settled_lpMakeNormalDisjunctiveForm left),
        weigh_lpMakeNormalDisjunctiveForm]
    rw [rightNested_iff_orList, orList, forall_mem_cons, ← rightNested_iff_orList, rightIh,
      first, ← show _ = root.orsNestRight false from pushed, orsNestRight]
    simp
  | case2 root left right applied leftIh rightIh =>
    have pushed := orsNestRight_lpApplyNot root 0
    rw [applied] at pushed
    rw [rightNested_distribute, leftIh, rightIh,
      ← show _ = root.orsNestRight false from pushed, orsNestRight]
    simp
  | case3 root notOr notAnd =>
    have pushed := orsNestRight_lpApplyNot root 0
    rw [← show _ = root.orsNestRight false from pushed]
    cases applied : lpApplyNot root 0 with
    | booleanOr left right => exact absurd applied (notOr left right)
    | booleanAnd left right => exact absurd applied (notAnd left right)
    | leaf type operands => exact Iff.rfl
    | booleanNot operand =>
      have keeps := keepsNot_of_lpApplyNot_eq_booleanNot applied
      rw [rightNested, orFree_of_keepsNot keeps, orsNestRight, keeps]
      exact Iff.rfl

/-! ## The terms that the loop peels off -/

theorem mem_setDnfOperands {copies : List LogicalPlan} {cur : LogicalPlan} :
    plan ∈ setDnfOperands copies cur ↔ plan ∈ copies ∨ ∃ term ∈ orList cur, term.1 = plan := by
  fun_induction setDnfOperands copies cur with
  | case1 copies left right ih =>
    rw [ih, orList, exists_mem_cons_iff, mem_cons, eq_comm, or_assoc, or_left_comm]
  | case2 copies cur notOr =>
    have term : cur.isOr = false := by
      cases cur with
      | booleanOr left right => exact absurd rfl (notOr left right)
      | _ => rfl
    rw [orList_of_isOr_eq_false term, mem_append, mem_singleton, eq_comm]
    simp

/-- The normal form is a right nested disjunction, and the loop that peels off its left operands
gives every plan a clause without OR, exactly when the ORs of the clause nest to the right. -/
theorem rightNested_lpMakeNormalDisjunctiveForm_iff (root : LogicalPlan) :
    ((lpMakeNormalDisjunctiveForm root).rightNested = true ∧
      ∀ plan ∈ setDnfOperands [] (lpMakeNormalDisjunctiveForm root), plan.orFree = true) ↔
      root.orsNestRight false = true := by
  rw [← rightNested_normalForm]
  refine and_iff_left_of_imp fun nested plan member => ?_
  obtain inNone | ⟨term, listed, rfl⟩ := mem_setDnfOperands.mp member
  · exact absurd inNone not_mem_nil
  · exact (rightNested_iff_orList _).mp nested term listed

/-- `(a OR b) OR c`, which the grammar makes of `a OR b OR c`. -/
def leftNestedOrs : LogicalPlan :=
  .booleanOr (.booleanOr (.leaf (.comparison .equals) ⟨0, false, false⟩)
    (.leaf (.comparison .equals) ⟨1, false, false⟩)) (.leaf (.comparison .equals) ⟨2, false, false⟩)

theorem normalForm_leftNestedOrs : lpMakeNormalDisjunctiveForm leftNestedOrs = leftNestedOrs := by
  rw [leftNestedOrs, lpMakeNormalDisjunctiveForm_of_booleanOr rfl,
    lpMakeNormalDisjunctiveForm_of_booleanOr rfl, lpMakeNormalDisjunctiveForm_leaf,
    lpMakeNormalDisjunctiveForm_leaf, lpMakeNormalDisjunctiveForm_leaf]

/-- The clause stays as it is, with an OR as the left operand of an OR, and the first plan that the
loop makes of it has `a OR b` as its clause. -/
theorem leftNestedOrs_not_rightNested :
    (lpMakeNormalDisjunctiveForm leftNestedOrs).rightNested = false ∧
      ∃ plan ∈ setDnfOperands [] (lpMakeNormalDisjunctiveForm leftNestedOrs),
        plan.orFree = false := by
  rw [normalForm_leftNestedOrs]
  exact ⟨rfl, _, mem_cons_self, rfl⟩

end Octo.Logical
