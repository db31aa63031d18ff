import Octo.Logical.NormalFormWeight

/-!
# What the normal form preserves

The truth value of a WHERE clause under an assignment of its leaves, and how far
`lp_make_normal_disjunctive_form` keeps it. `pushedValue` is the value that the rewriting computes
for every plan; it differs from the value of the plan exactly at the leaves that are reached below
an AND or OR under an odd number of negations and that cannot be negated by changing their type.
-/
namespace Octo.Logical

open Kleene LogicalPlan List

/-- A truth value for every leaf that makes the pairs of operators swapped by `lp_apply_not`
complementary, except for NULL tests on rows. -/
structure Assignment where
  value : LeafType → Operands → Truth
  complementary : ∀ {type flipped : LeafType} (operands : Operands),
    type.flip = some flipped → isRowNullTest type operands = false →
      value flipped operands = (value type operands).not

/-- The truth value of a plan. -/
def LogicalPlan.eval (assignment : Assignment) : LogicalPlan → Truth
  | .booleanNot operand => (operand.eval assignment).not
  | .booleanAnd left right => (left.eval assignment).and (right.eval assignment)
  | .booleanOr left right => (left.eval assignment).or (right.eval assignment)
  | .leaf type operands => assignment.value type operands

/-- No leaf without a complement is reached from an AND or OR, or from the root, under an odd
number of negations. -/
def LogicalPlan.negatable : Bool → LogicalPlan → Bool
  | odd, .booleanNot operand => operand.keepsNot || operand.negatable (!odd)
  | odd, .booleanAnd left right => left.negatable odd && right.negatable odd
  | odd, .booleanOr left right => left.negatable odd && right.negatable odd
  | odd, .leaf type operands => !odd || !Logical.keepsNot type operands

/-- The value that the rewriting gives to a plan below `odd` many negations. -/
def pushedValue (assignment : Assignment) : Bool → LogicalPlan → Truth
  | odd, .booleanNot operand =>
    if operand.keepsNot then Truth.negateIf (!odd) (operand.eval assignment)
    else pushedValue assignment (!odd) operand
  | odd, .booleanAnd left right =>
    if odd then (pushedValue assignment odd left).or (pushedValue assignment odd right)
    else (pushedValue assignment odd left).and (pushedValue assignment odd right)
  | odd, .booleanOr left right =>
    if odd then (pushedValue assignment odd left).and (pushedValue assignment odd right)
    else (pushedValue assignment odd left).or (pushedValue assignment odd right)
  | odd, .leaf type operands =>
    assignment.value (if odd then type.flip.getD type else type) operands

/-! ## The rewriting computes `pushedValue` -/

/-- The pushed value as a weight. -/
def truthLeaves (assignment : Assignment) : LeafWeight Truth where
  plain odd type operands := assignment.value (if odd then type.flip.getD type else type) operands
  kept odd plan := Truth.negateIf odd (plan.eval assignment)
  kept_even _ _ := rfl
  plain_flip _ _ := rfl

theorem pushedValue_eq_weigh (assignment : Assignment) (odd : Bool) (plan : LogicalPlan) :
    pushedValue assignment odd plan = plan.weigh (truthLeaves assignment) odd := by
  induction plan generalizing odd with
  | booleanNot operand ih => rw [pushedValue, ih]; rfl
  | booleanAnd left right leftIh rightIh | booleanOr left right leftIh rightIh =>
    rw [pushedValue, weigh, leftIh, rightIh, Truth.add_eq_or, Truth.mul_eq_and]
  | leaf type operands => rfl

variable {plan : LogicalPlan} {type : LeafType} {odd : Bool} {first second : Nat → Truth}

section

variable (assignment : Assignment)

/-- A settled plan has its value as its weight. -/
theorem eval_eq_weigh_of_settled (settled : plan.Settled) :
    plan.eval assignment = plan.weigh (truthLeaves assignment) false := by
  induction plan with
  | booleanNot operand _ =>
    have keeps : operand.keepsNot = true := settled
    simp [eval, weigh, keeps, truthLeaves]
  | booleanAnd left right leftIh rightIh | booleanOr left right leftIh rightIh =>
    simp only [eval, weigh_booleanAnd, weigh_booleanOr, leftIh settled.1, rightIh settled.2,
      Truth.mul_eq_and, Truth.add_eq_or]
  | leaf type operands => rfl

/-- `lp_make_normal_disjunctive_form` computes the pushed value of every plan. -/
theorem eval_lpMakeNormalDisjunctiveForm (root : LogicalPlan) :
    (lpMakeNormalDisjunctiveForm root).eval assignment = pushedValue assignment false root := by
  rw [eval_eq_weigh_of_settled assignment (settled_lpMakeNormalDisjunctiveForm root),
    weigh_lpMakeNormalDisjunctiveForm, pushedValue_eq_weigh]

/-! ## When the pushed value is the value of the plan -/

variable {operands : Operands}

/-- A leaf that does not keep a NOT has a complement that negates it. -/
theorem value_flip (plain : keepsNot type operands = false) :
    assignment.value (type.flip.getD type) operands = (assignment.value type operands).not := by
  obtain ⟨notRow, applies⟩ := Bool.or_eq_false_iff.mp plain
  cases flips : type.flip with
  | some flipped => exact assignment.complementary operands flips notRow
  | none => cases type <;> simp_all [LeafType.flip, LeafType.cannotApplyNot]

/-- Under `negatable` the rewriting keeps the value of the plan. -/
theorem pushedValue_of_negatable (negatable : plan.negatable odd = true) :
    pushedValue assignment odd plan = Truth.negateIf odd (plan.eval assignment) := by
  induction plan generalizing odd with
  | booleanNot operand ih =>
    by_cases keeps : operand.keepsNot = true
    · simp [pushedValue, keeps, eval, Truth.negateIf_not]
    · have inner : operand.negatable (!odd) = true := by
        simpa [LogicalPlan.negatable, keeps] using negatable
      simp [pushedValue, eval, ih inner, Truth.negateIf_not]
  | booleanAnd left right leftIh rightIh | booleanOr left right leftIh rightIh =>
    obtain ⟨leftSafe, rightSafe⟩ := Bool.and_eq_true_iff.mp negatable
    rw [pushedValue, leftIh leftSafe, rightIh rightSafe, eval]
    cases odd <;> simp [Truth.not_and, Truth.not_or]
  | leaf type operands =>
    cases odd with
    | false => rfl
    | true =>
      have plain : keepsNot type operands = false := by
        simpa [LogicalPlan.negatable] using negatable
      exact value_flip assignment plain

end

/-! ## Assignments that tell the two values apart -/

/-- The first member of each pair of complementary types, and every type without a complement. -/
def LeafType.positive : LeafType → Bool
  | .comparison operator => operator == .equals || operator == .lessThan || operator == .greaterThan
  | .allComparison _ | .notInList | .notExistsQuery | .isNotValue => false
  | _ => true

theorem positive_flip (flips : type.flip = some flipped) :
    flipped.positive = !type.positive := by
  cases type with
  | comparison operator =>
    cases flips
    cases operator <;> rfl
  | _ => cases flips <;> rfl

/-- The test on a row is on a row under either type. -/
theorem isRowNullTest_flip (operands : Operands) (flips : type.flip = some flipped) :
    isRowNullTest flipped operands = isRowNullTest type operands := by
  cases type <;> cases flips <;> rfl

/-- The assignment under which the leaf at each address has a chosen value: as it stands for
positive types and row tests, negated for the others. -/
def literalAssignment (chosen : Nat → Truth) : Assignment where
  value type operands :=
    Truth.negateIf (!(isRowNullTest type operands || type.positive)) (chosen operands.address)
  complementary := by
    intro type flipped operands flips notRow
    have notRowFlipped := (isRowNullTest_flip operands flips).trans notRow
    rw [notRow, notRowFlipped, Bool.false_or, Bool.false_or, positive_flip flips,
      Truth.negateIf_bnot]

/-- The addresses of the leaves of a plan. -/
def LogicalPlan.addresses : LogicalPlan → List Nat
  | .booleanNot operand => operand.addresses
  | .booleanAnd left right => left.addresses ++ right.addresses
  | .booleanOr left right => left.addresses ++ right.addresses
  | .leaf _ operands => [operands.address]

/-- What a choice of leaf values makes of a plan: the value that the rewriting computes and the
value of the plan itself, both below `odd` many negations. -/
def bothValues (chosen : Nat → Truth) (odd : Bool) (plan : LogicalPlan) : Truth × Truth :=
  (pushedValue (literalAssignment chosen) odd plan,
    Truth.negateIf odd (plan.eval (literalAssignment chosen)))

/-- Both values depend on the leaves of the plan alone. -/
theorem bothValues_congr (odd : Bool)
    (agree : ∀ address ∈ plan.addresses, first address = second address) :
    bothValues first odd plan = bothValues second odd plan := by
  have same : pushedValue (literalAssignment first) odd plan =
        pushedValue (literalAssignment second) odd plan ∧
      plan.eval (literalAssignment first) = plan.eval (literalAssignment second) := by
    induction plan generalizing odd with
    | booleanNot operand ih =>
      obtain ⟨samePushed, sameEval⟩ := ih (!odd) agree
      simp only [pushedValue, eval, samePushed, sameEval, and_self]
    | booleanAnd left right leftIh rightIh | booleanOr left right leftIh rightIh =>
      have sameLeft := leftIh odd fun address member => agree address (mem_append_left _ member)
      have sameRight := rightIh odd fun address member => agree address (mem_append_right _ member)
      simp only [pushedValue, eval, sameLeft, sameRight, and_self]
    | leaf type operands =>
      simp only [pushedValue, eval, literalAssignment, agree operands.address mem_cons_self,
        and_self]
  rw [bothValues, bothValues, same.1, same.2]

/-- Choices for two plans without a common leaf can be made at once. -/
theorem exists_bothValues_of_disjoint {leftPair rightPair : Truth × Truth}
    (apart : (left.addresses ++ right.addresses).Nodup)
    (leftReaches : ∃ chosen, bothValues chosen odd left = leftPair)
    (rightReaches : ∃ chosen, bothValues chosen odd right = rightPair) :
    ∃ chosen, bothValues chosen odd left = leftPair ∧ bothValues chosen odd right = rightPair := by
  obtain ⟨leftChosen, leftReached⟩ := leftReaches
  obtain ⟨rightChosen, rightReached⟩ := rightReaches
  refine ⟨fun address => if address ∈ left.addresses then leftChosen address
    else rightChosen address, ?_, ?_⟩
  · rw [← leftReached]
    exact bothValues_congr odd fun address member => if_pos member
  · rw [← rightReached]
    exact bothValues_congr odd fun address member =>
      if_neg fun inLeft => (nodup_append.mp apart).2.2 address inLeft address member rfl

/-- The pair of values of an AND or OR node from the pairs of its sides. -/
def nodePair (disjunctive : Bool) (left right : Truth × Truth) : Truth × Truth :=
  if disjunctive then (left.1.or right.1, left.2.or right.2)
  else (left.1.and right.1, left.2.and right.2)

section

variable (chosen : Nat → Truth) (odd : Bool) (left right : LogicalPlan)

theorem bothValues_booleanAnd :
    bothValues chosen odd (.booleanAnd left right) =
      nodePair odd (bothValues chosen odd left) (bothValues chosen odd right) := by
  cases odd <;> simp [bothValues, nodePair, pushedValue, eval, Truth.not_and]

theorem bothValues_booleanOr :
    bothValues chosen odd (.booleanOr left right) =
      nodePair (!odd) (bothValues chosen odd left) (bothValues chosen odd right) := by
  cases odd <;> simp [bothValues, nodePair, pushedValue, eval, Truth.not_or]

theorem bothValues_booleanNot {operand : LogicalPlan} (plain : operand.keepsNot = false) :
    bothValues chosen odd (.booleanNot operand) = bothValues chosen (!odd) operand := by
  simp [bothValues, pushedValue, plain, eval, Truth.negateIf_not]

end

theorem nodePair_self (disjunctive : Bool) (pair : Truth × Truth) :
    nodePair disjunctive pair pair = pair := by
  obtain ⟨first, second⟩ := pair
  cases disjunctive <;> cases first <;> cases second <;> rfl

/-- Every leaf can be given every value. -/
theorem exists_value_literalAssignment (type : LeafType) (operands : Operands) (target : Truth) :
    ∃ chosen, (literalAssignment chosen).value type operands = target := by
  exact ⟨fun _ => Truth.negateIf (!(isRowNullTest type operands || type.positive)) target,
    Truth.negateIf_negateIf _ target⟩

/-- A plan that the rewriting keeps can be given every value. -/
theorem exists_bothValues_of_negatable (distinct : plan.addresses.Nodup)
    (negatable : plan.negatable odd = true) (target : Truth) :
    ∃ chosen, bothValues chosen odd plan = (target, target) := by
  induction plan generalizing odd with
  | booleanNot operand ih =>
    by_cases keeps : operand.keepsNot = true
    · obtain ⟨type, operands, rfl⟩ := exists_leaf_of_keepsNot keeps
      obtain ⟨chosen, reached⟩ :=
        exists_value_literalAssignment type operands (Truth.negateIf (!odd) target)
      refine ⟨chosen, ?_⟩
      cases odd <;> simp_all [bothValues, pushedValue, eval]
    · have inner : operand.negatable (!odd) = true := by
        simpa [LogicalPlan.negatable, keeps] using negatable
      obtain ⟨chosen, reached⟩ := ih distinct inner
      exact ⟨chosen, by rw [bothValues_booleanNot chosen odd (by simpa using keeps), reached]⟩
  | booleanAnd left right leftIh rightIh | booleanOr left right leftIh rightIh =>
    obtain ⟨leftSafe, rightSafe⟩ := Bool.and_eq_true_iff.mp negatable
    obtain ⟨leftDistinct, rightDistinct, _⟩ := nodup_append.mp distinct
    obtain ⟨chosen, leftReached, rightReached⟩ := exists_bothValues_of_disjoint distinct
      (leftIh leftDistinct leftSafe) (rightIh rightDistinct rightSafe)
    refine ⟨chosen, ?_⟩
    simp only [bothValues_booleanAnd, bothValues_booleanOr, leftReached, rightReached,
      nodePair_self]
  | leaf type operands =>
    obtain ⟨chosen, reached⟩ :=
      exists_value_literalAssignment type operands (Truth.negateIf odd target)
    refine ⟨chosen, ?_⟩
    have kept := pushedValue_of_negatable (literalAssignment chosen) negatable
    rw [bothValues, kept, eval, reached]
    cases odd <;> simp

/-- The rewriting computes `true` for a plan that is `false`. -/
def Separable (odd : Bool) (plan : LogicalPlan) : Prop :=
  ∃ chosen, bothValues chosen odd plan = (.true, .false)

/-- A node separates the two values when one of its sides does. The other side separates them as
well, or takes the value that is neutral for the node. -/
theorem exists_nodePair_separated (disjunctive : Bool)
    (distinct : (left.addresses ++ right.addresses).Nodup)
    (leftIh : left.negatable odd = false → Separable odd left)
    (rightIh : right.negatable odd = false → Separable odd right)
    (lossy : (left.negatable odd && right.negatable odd) = false) :
    ∃ chosen, nodePair disjunctive (bothValues chosen odd left) (bothValues chosen odd right) =
      (.true, .false) := by
  obtain ⟨leftDistinct, rightDistinct, _⟩ := nodup_append.mp distinct
  let neutral : Truth := if disjunctive then .false else .true
  cases leftSafe : left.negatable odd with
  | false =>
    cases rightSafe : right.negatable odd with
    | false =>
      obtain ⟨chosen, leftReached, rightReached⟩ :=
        exists_bothValues_of_disjoint distinct (leftIh leftSafe) (rightIh rightSafe)
      exact ⟨chosen, by rw [leftReached, rightReached, nodePair_self]⟩
    | true =>
      obtain ⟨chosen, leftReached, rightReached⟩ :=
        exists_bothValues_of_disjoint distinct (leftIh leftSafe)
          (exists_bothValues_of_negatable rightDistinct rightSafe neutral)
      refine ⟨chosen, ?_⟩
      rw [leftReached, rightReached]
      cases disjunctive <;> rfl
  | true =>
    have rightSafe : right.negatable odd = false := by simpa [leftSafe] using lossy
    obtain ⟨chosen, leftReached, rightReached⟩ :=
      exists_bothValues_of_disjoint distinct
        (exists_bothValues_of_negatable leftDistinct leftSafe neutral) (rightIh rightSafe)
    refine ⟨chosen, ?_⟩
    rw [leftReached, rightReached]
    cases disjunctive <;> rfl

/-- A leaf that keeps a NOT loses it below an odd number of negations. -/
theorem separable_leaf (keeps : keepsNot type operands = true) :
    Separable true (.leaf type operands) := by
  obtain ⟨chosen, reached⟩ := exists_value_literalAssignment type operands .true
  refine ⟨chosen, ?_⟩
  have pushed : (literalAssignment chosen).value (type.flip.getD type) operands = .true := by
    cases flips : type.flip with
    | none => exact reached
    | some flipped =>
      have applies : type.cannotApplyNot = false := by
        cases type <;> simp_all [LeafType.flip, LeafType.cannotApplyNot]
      have row : isRowNullTest type operands = true := by
        simpa [keepsNot, applies] using keeps
      have rowFlipped := (isRowNullTest_flip operands flips).trans row
      simpa [literalAssignment, row, rowFlipped] using reached
  simp [bothValues, pushedValue, eval, pushed, reached, Truth.not]

theorem separable_of_not_negatable (distinct : plan.addresses.Nodup)
    (lossy : plan.negatable odd = false) : Separable odd plan := by
  induction plan generalizing odd with
  | booleanNot operand ih =>
    obtain ⟨plain, inner⟩ := Bool.or_eq_false_iff.mp lossy
    obtain ⟨chosen, reached⟩ := ih distinct inner
    exact ⟨chosen, by rw [bothValues_booleanNot chosen odd plain, reached]⟩
  | booleanAnd left right leftIh rightIh =>
    obtain ⟨leftDistinct, rightDistinct, _⟩ := nodup_append.mp distinct
    obtain ⟨chosen, reached⟩ := exists_nodePair_separated odd distinct (leftIh leftDistinct)
      (rightIh rightDistinct) lossy
    exact ⟨chosen, by rw [bothValues_booleanAnd, reached]⟩
  | booleanOr left right leftIh rightIh =>
    obtain ⟨leftDistinct, rightDistinct, _⟩ := nodup_append.mp distinct
    obtain ⟨chosen, reached⟩ := exists_nodePair_separated (!odd) distinct (leftIh leftDistinct)
      (rightIh rightDistinct) lossy
    exact ⟨chosen, by rw [bothValues_booleanOr, reached]⟩
  | leaf type operands =>
    obtain ⟨isOdd, keeps⟩ := Bool.or_eq_false_iff.mp lossy
    obtain rfl : odd = true := by simpa using isOdd
    exact separable_leaf (by simpa using keeps)

/-- The normal form of a WHERE clause whose leaves are distinct nodes has the value of the clause
under every assignment exactly when no leaf without a complement is reached from an AND or OR under
an odd number of negations. -/
theorem eval_lpMakeNormalDisjunctiveForm_iff (root : LogicalPlan)
    (distinct : root.addresses.Nodup) :
    (∀ assignment, (lpMakeNormalDisjunctiveForm root).eval assignment = root.eval assignment) ↔
      root.negatable false = true := by
  constructor
  · intro kept
    cases lossy : root.negatable false with
    | true => rfl
    | false =>
      obtain ⟨chosen, reached⟩ := separable_of_not_negatable distinct lossy
      have same := kept (literalAssignment chosen)
      rw [eval_lpMakeNormalDisjunctiveForm] at same
      obtain ⟨pushedTrue, valueFalse⟩ := Prod.mk.inj reached
      rw [same] at pushedTrue
      rw [pushedTrue] at valueFalse
      cases valueFalse
  · intro negatable assignment
    rw [eval_lpMakeNormalDisjunctiveForm, pushedValue_of_negatable assignment negatable]
    rfl

/-- `NOT (id = 1 AND NOT name LIKE 'x%')`: the pattern keeps its own NOT. -/
def negatedConjunction : LogicalPlan :=
  .booleanNot (.booleanAnd (.leaf (.comparison .equals) ⟨0, false, false⟩)
    (.booleanNot (.leaf (.regex .sensitiveLike) ⟨1, false, false⟩)))

theorem eval_normalForm_negatedConjunction :
    negatedConjunction.addresses.Nodup ∧ ∀ assignment,
      (lpMakeNormalDisjunctiveForm negatedConjunction).eval assignment =
        negatedConjunction.eval assignment :=
  ⟨by decide, (eval_lpMakeNormalDisjunctiveForm_iff negatedConjunction (by decide)).mpr (by decide)⟩

/-- `NOT (name LIKE 'x%' AND id = 1)`: the pattern is reached from the AND. -/
def negatedPattern : LogicalPlan :=
  .booleanNot (.booleanAnd (.leaf (.regex .sensitiveLike) ⟨0, false, false⟩)
    (.leaf (.comparison .equals) ⟨1, false, false⟩))

/-- A row with `name LIKE 'x%'` and `id = 1` fails the clause but satisfies its normal form
`name LIKE 'x%' OR id <> 1`. -/
theorem eval_normalForm_negatedPattern :
    negatedPattern.eval (literalAssignment fun _ => .true) = .false ∧
      (lpMakeNormalDisjunctiveForm negatedPattern).eval (literalAssignment fun _ => .true) =
        .true := by
  rw [eval_lpMakeNormalDisjunctiveForm]
  decide

end Octo.Logical
