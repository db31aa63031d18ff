import Octo.Logical.NormalForm

/-!
# Weights of WHERE clauses

A weight gives every leaf a value in a commutative semiring, adds over disjunctions and multiplies
over conjunctions, and follows the negation counter of `lp_apply_not` down to the leaves. Every
step of `lp_make_normal_disjunctive_form` keeps every weight: pushing negations down because the
weight follows them, distributing a conjunction because multiplication distributes over addition.
Truth values and the number of disjuncts are two such weights.
-/
namespace Octo.Logical

open List

variable {Weight : Type*} [CommSemiring Weight]

/-- The test is on a whole row, where `IS NULL` and `IS NOT NULL` are not opposites. -/
def isRowNullTest (type : LeafType) (operands : Operands) : Bool :=
  isNullTest type operands && operands.tableAsterisk

/-- A NOT directly above the leaf is kept, because the leaf's type has no complement. -/
def keepsNot (type : LeafType) (operands : Operands) : Bool :=
  isRowNullTest type operands || type.cannotApplyNot

/-- A NOT directly above the plan is kept. -/
def LogicalPlan.keepsNot : LogicalPlan → Bool
  | .leaf type operands => Logical.keepsNot type operands
  | _ => false

open LogicalPlan

/-- The weights of the leaves. -/
structure LeafWeight (Weight : Type*) where
  /-- A leaf below an odd or even number of negations. -/
  plain : Bool → LeafType → Operands → Weight
  /-- A plan that keeps a NOT of its own, below an odd or even number of negations. -/
  kept : Bool → LogicalPlan → Weight
  kept_even : ∀ type operands, kept false (.leaf type operands) = plain false type operands
  /-- A leaf that `lp_apply_not` reaches with an odd counter gets the type of its complement. -/
  plain_flip : ∀ type operands,
    plain false (type.flip.getD type) operands = plain true type operands

/-- The weight of a plan below an odd or even number of negations. -/
def LogicalPlan.weigh (leaves : LeafWeight Weight) : Bool → LogicalPlan → Weight
  | odd, .booleanNot operand =>
    if operand.keepsNot then leaves.kept (!odd) operand else operand.weigh leaves (!odd)
  | odd, .booleanAnd left right =>
    if odd then left.weigh leaves odd + right.weigh leaves odd
    else left.weigh leaves odd * right.weigh leaves odd
  | odd, .booleanOr left right =>
    if odd then left.weigh leaves odd * right.weigh leaves odd
    else left.weigh leaves odd + right.weigh leaves odd
  | odd, .leaf type operands => leaves.plain odd type operands

variable (leaves : LeafWeight Weight)
variable (left right : LogicalPlan)

@[simp] theorem weigh_booleanAnd :
    (booleanAnd left right).weigh leaves false =
      left.weigh leaves false * right.weigh leaves false := rfl

@[simp] theorem weigh_booleanOr :
    (booleanOr left right).weigh leaves false =
      left.weigh leaves false + right.weigh leaves false := rfl

/-! ## Pushing negations down -/

/-- `lp_apply_not` looks at the operand of a NOT in one of two ways. -/
theorem lpApplyNot_booleanNot (operand : LogicalPlan) (count : Nat) :
    lpApplyNot (.booleanNot operand) count =
      if operand.keepsNot then
        if count % 2 = 1 then operand else .booleanNot operand
      else lpApplyNot operand (count + 1) := by
  cases operand with
  | leaf type operands =>
    simp only [lpApplyNot.eq_1, LogicalPlan.keepsNot, LogicalPlan.isNullTest,
      LogicalPlan.isTableAsterisk, LogicalPlan.cannotApplyNot, Logical.keepsNot, isRowNullTest]
    by_cases null : isNullTest type operands = true
    · have applies : type.cannotApplyNot = false := by
        simp only [isNullTest, Bool.and_eq_true, Bool.or_eq_true, beq_iff_eq] at null
        rcases null.1 with rfl | rfl <;> rfl
      rcases Nat.mod_two_eq_zero_or_one count with even | odd <;> simp [*]
    · by_cases applies : type.cannotApplyNot = true <;> simp [null, applies]
  | _ => rfl

/-- Only leaves keep a NOT. -/
theorem exists_leaf_of_keepsNot {plan : LogicalPlan} (keeps : plan.keepsNot = true) :
    ∃ type operands, plan = .leaf type operands := by
  cases plan with
  | leaf type operands => exact ⟨type, operands, rfl⟩
  | _ => cases keeps

theorem odd_succ (count : Nat) : decide ((count + 1) % 2 = 1) = !decide (count % 2 = 1) := by
  grind

variable (plan : LogicalPlan)

/-- Pushing `count` negations into a plan gives a plan of the weight that the old plan has below
that many negations. -/
theorem weigh_lpApplyNot (count : Nat) :
    (lpApplyNot plan count).weigh leaves false =
      plan.weigh leaves (decide (count % 2 = 1)) := by
  induction plan generalizing count with
  | booleanNot operand ih =>
    rw [lpApplyNot_booleanNot]
    by_cases keeps : operand.keepsNot = true
    · obtain ⟨type, operands, rfl⟩ := exists_leaf_of_keepsNot keeps
      by_cases odd : count % 2 = 1 <;>
        simp [weigh, keeps, odd, leaves.kept_even]
    · rw [if_neg keeps, ih, odd_succ]
      simp [weigh, keeps]
  | booleanAnd left right leftIh rightIh | booleanOr left right leftIh rightIh =>
    by_cases odd : count % 2 = 1
    · simp [lpApplyNot, weigh, odd, leftIh, rightIh]
    · simp [lpApplyNot, odd]
  | leaf type operands =>
    by_cases odd : count % 2 = 1
    · simp [lpApplyNot, weigh, odd, leaves.plain_flip type operands]
    · simp [lpApplyNot, odd]

/-! ## Distributing conjunctions -/

/-- The weight of a list of alternatives. -/
def weighAny (plans : List LogicalPlan) : Weight :=
  (plans.map (LogicalPlan.weigh leaves false)).sum

@[simp] theorem weighAny_nil : weighAny leaves [] = 0 := rfl

@[simp] theorem weighAny_cons (plans : List LogicalPlan) :
    weighAny leaves (plan :: plans) = plan.weigh leaves false + weighAny leaves plans := by
  simp [weighAny]

@[simp] theorem weighAny_append (first second : List LogicalPlan) :
    weighAny leaves (first ++ second) = weighAny leaves first + weighAny leaves second := by
  simp [weighAny]

/-- An OR list is the disjunction of its terms. -/
theorem weighAny_orList :
    weighAny leaves ((orList plan).map Prod.fst) = plan.weigh leaves false := by
  induction plan with
  | booleanOr left right _ rightIh =>
    rw [orList, map_cons, weighAny_cons, rightIh, weigh_booleanOr]
  | _ => simp [orList]

/-- Conjoining one plan with every term of a list distributes over the list. -/
theorem weighAny_map_booleanAnd (left : LogicalPlan) (rights : List (LogicalPlan × Bool)) :
    weighAny leaves (rights.map fun r => .booleanAnd left r.1) =
      left.weigh leaves false * weighAny leaves (rights.map Prod.fst) := by
  induction rights with
  | nil => simp
  | cons right rest ih => simp [ih, mul_add]

/-- The AND nodes that the loops build weigh the product of the two sides. -/
theorem weighAny_combinations :
    weighAny leaves ((combinations left right).map Prod.snd) =
      left.weigh leaves false * right.weigh leaves false := by
  rw [← weighAny_orList leaves left, ← weighAny_orList leaves right, combinations]
  induction orList left with
  | nil => simp
  | cons term rest ih =>
    have row : ((orList right).map fun r =>
        ((if term.2 || r.2 then Connective.disjunction else .conjunction,
          booleanAnd term.1 r.1) : Connective × LogicalPlan)).map Prod.snd =
        (orList right).map fun r => booleanAnd term.1 r.1 := by
      rw [map_map]
      rfl
    rw [flatMap_cons, map_append, weighAny_append, ih, row, weighAny_map_booleanAnd,
      map_cons, weighAny_cons, add_mul]

/-- Every node of an OR list but its last is an OR. -/
theorem orList_eq_append :
    ∃ (initial : List LogicalPlan) (last : LogicalPlan),
      orList plan = initial.map (·, true) ++ [(last, false)] := by
  induction plan with
  | booleanOr left right _ rightIh =>
    obtain ⟨initial, last, listed⟩ := rightIh
    exact ⟨left :: initial, last, by rw [orList, listed]; rfl⟩
  | _ => exact ⟨[], _, rfl⟩

/-- Every iteration of the loops but the last links its node by OR. -/
theorem combinations_eq_append :
    ∃ (initial : List (Connective × LogicalPlan)) (last : Connective × LogicalPlan),
      combinations left right = initial ++ [last] ∧
        ∀ item ∈ initial, item.1 = .disjunction := by
  obtain ⟨leftInitial, leftLast, leftListed⟩ := orList_eq_append left
  obtain ⟨rightInitial, rightLast, rightListed⟩ := orList_eq_append right
  refine ⟨leftInitial.flatMap (fun l => (orList right).map fun r =>
      (.disjunction, .booleanAnd l r.1)) ++
    rightInitial.map (fun r => (.disjunction, .booleanAnd leftLast r)),
    (.conjunction, .booleanAnd leftLast rightLast), ?_, ?_⟩
  · rw [combinations, leftListed, flatMap_append, append_assoc]
    congr 1
    · simp [flatMap_map]
    · simp [rightListed]
  · intro item member
    rcases mem_append.mp member with inFirst | inSecond
    · obtain ⟨l, _, inRow⟩ := mem_flatMap.mp inFirst
      obtain ⟨r, _, rfl⟩ := mem_map.mp inRow
      rfl
    · obtain ⟨r, _, rfl⟩ := mem_map.mp inSecond
      rfl

/-- The OR list of some terms. -/
def anyOf : LogicalPlan → List LogicalPlan → LogicalPlan
  | item, [] => item
  | item, next :: rest => .booleanOr item (anyOf next rest)

theorem weigh_anyOf (item : LogicalPlan) (rest : List LogicalPlan) :
    (anyOf item rest).weigh leaves false = weighAny leaves (item :: rest) := by
  induction rest generalizing item with
  | nil => simp [anyOf]
  | cons next rest ih => rw [anyOf, weigh_booleanOr, ih, weighAny_cons leaves item]

/-- A chain whose nodes are all linked by OR is the OR list of its items. -/
theorem chain_eq_anyOf (item last : Connective × LogicalPlan)
    (rest : List (Connective × LogicalPlan)) (linked : item.1 = .disjunction)
    (allLinked : ∀ next ∈ rest, next.1 = .disjunction) :
    chain .disjunction item (rest ++ [last]) = anyOf item.2 ((rest ++ [last]).map Prod.snd) := by
  induction rest generalizing item with
  | nil => rfl
  | cons next rest ih =>
    have tail := ih next (allLinked next mem_cons_self)
      (forall_mem_of_forall_mem_cons allLinked)
    rw [cons_append, chain, linked, tail]
    rfl

/-- The loops build the OR list of their AND nodes. -/
theorem exists_distribute_eq_anyOf :
    ∃ item rest, (combinations left right).map Prod.snd = item :: rest ∧
      distribute left right = anyOf item rest := by
  obtain ⟨initial, last, listed, linked⟩ := combinations_eq_append left right
  cases initial with
  | nil => exact ⟨last.2, [], by rw [listed]; rfl, by rw [distribute, listed]; rfl⟩
  | cons item rest =>
    have first := linked item mem_cons_self
    refine ⟨item.2, (rest ++ [last]).map Prod.snd, by rw [listed]; rfl, ?_⟩
    simp only [distribute, listed, cons_append, first]
    exact chain_eq_anyOf item last rest first
      (forall_mem_of_forall_mem_cons linked)

/-- Distributing a conjunction keeps its weight. -/
theorem weigh_distribute :
    (distribute left right).weigh leaves false =
      left.weigh leaves false * right.weigh leaves false := by
  obtain ⟨item, rest, listed, built⟩ := exists_distribute_eq_anyOf left right
  rw [built, weigh_anyOf, ← listed, weighAny_combinations]

/-- `lp_make_normal_disjunctive_form` keeps every weight. -/
theorem weigh_lpMakeNormalDisjunctiveForm (root : LogicalPlan) :
    (lpMakeNormalDisjunctiveForm root).weigh leaves false = root.weigh leaves false := by
  fun_induction lpMakeNormalDisjunctiveForm root with
  | case1 root left right applied leftIh rightIh =>
    have pushed := weigh_lpApplyNot leaves root 0
    rw [applied] at pushed
    rw [weigh_booleanOr, leftIh, rightIh]
    exact pushed
  | case2 root left right applied leftIh rightIh =>
    have pushed := weigh_lpApplyNot leaves root 0
    rw [applied] at pushed
    rw [weigh_distribute, leftIh, rightIh]
    exact pushed
  | case3 root _ _ => exact weigh_lpApplyNot leaves root 0

/-! ## Settled plans -/

/-- Every NOT of the plan stands above a leaf that keeps it. -/
def LogicalPlan.Settled : LogicalPlan → Prop
  | .booleanNot operand => operand.keepsNot = true
  | .booleanAnd left right => left.Settled ∧ right.Settled
  | .booleanOr left right => left.Settled ∧ right.Settled
  | .leaf _ _ => True

/-- A NOT that is left by `lp_apply_not` stands above a leaf that keeps it. -/
theorem keepsNot_of_lpApplyNot_eq_booleanNot {plan operand : LogicalPlan} {count : Nat}
    (applied : lpApplyNot plan count = .booleanNot operand) : operand.keepsNot = true := by
  induction plan generalizing count with
  | booleanNot inner ih =>
    rw [lpApplyNot_booleanNot] at applied
    by_cases keeps : inner.keepsNot = true
    · obtain ⟨type, operands, rfl⟩ := exists_leaf_of_keepsNot keeps
      rw [if_pos keeps] at applied
      split at applied
      · cases applied
      · cases applied
        exact keeps
    · rw [if_neg keeps] at applied
      exact ih applied
  | booleanAnd left right _ _ | booleanOr left right _ _ | leaf type operands =>
    rw [lpApplyNot] at applied
    split at applied <;> cases applied

/-- The terms of a settled OR list are settled. -/
theorem settled_of_mem_orList {plan : LogicalPlan} (settled : plan.Settled)
    {term : LogicalPlan × Bool} (member : term ∈ orList plan) : term.1.Settled := by
  induction plan with
  | booleanOr left right _ rightIh =>
    rcases mem_cons.mp member with rfl | inRight
    · exact settled.1
    · exact rightIh settled.2 inRight
  | booleanNot operand _ | booleanAnd left right _ _ | leaf type operands =>
    rwa [mem_singleton.mp member]

theorem settled_anyOf {item : LogicalPlan} {rest : List LogicalPlan}
    (settled : ∀ term ∈ item :: rest, term.Settled) : (anyOf item rest).Settled := by
  induction rest generalizing item with
  | nil => exact settled item mem_cons_self
  | cons next rest ih =>
    exact ⟨settled item mem_cons_self, ih (forall_mem_of_forall_mem_cons settled)⟩

/-- The loops combine every term of the left OR list with every term of the right one. -/
theorem mem_combinations {plan left right : LogicalPlan} :
    plan ∈ (combinations left right).map Prod.snd ↔
      ∃ l ∈ orList left, ∃ r ∈ orList right, plan = .booleanAnd l.1 r.1 := by
  constructor
  · intro member
    obtain ⟨combination, inLoops, rfl⟩ := mem_map.mp member
    obtain ⟨l, inLeft, inRow⟩ := mem_flatMap.mp inLoops
    obtain ⟨r, inRight, rfl⟩ := mem_map.mp inRow
    exact ⟨l, inLeft, r, inRight, rfl⟩
  · rintro ⟨l, inLeft, r, inRight, rfl⟩
    exact mem_map.mpr ⟨_, mem_flatMap.mpr ⟨l, inLeft, mem_map_of_mem inRight⟩, rfl⟩

theorem settled_distribute {left right : LogicalPlan} (leftSettled : left.Settled)
    (rightSettled : right.Settled) : (distribute left right).Settled := by
  obtain ⟨item, rest, listed, built⟩ := exists_distribute_eq_anyOf left right
  rw [built]
  refine settled_anyOf fun term member => ?_
  rw [← listed] at member
  obtain ⟨l, inLeft, r, inRight, rfl⟩ := mem_combinations.mp member
  exact ⟨settled_of_mem_orList leftSettled inLeft, settled_of_mem_orList rightSettled inRight⟩

/-- The normal form has no NOT but those that a leaf keeps. -/
theorem settled_lpMakeNormalDisjunctiveForm (root : LogicalPlan) :
    (lpMakeNormalDisjunctiveForm root).Settled := by
  fun_induction lpMakeNormalDisjunctiveForm root with
  | case1 root left right applied leftIh rightIh => exact ⟨leftIh, rightIh⟩
  | case2 root left right applied leftIh rightIh => exact settled_distribute leftIh rightIh
  | case3 root notOr notAnd =>
    cases applied : lpApplyNot root 0 with
    | booleanOr left right => exact absurd applied (notOr left right)
    | booleanAnd left right => exact absurd applied (notAnd left right)
    | leaf type operands => trivial
    | booleanNot operand => exact keepsNot_of_lpApplyNot_eq_booleanNot applied

end Octo.Logical
