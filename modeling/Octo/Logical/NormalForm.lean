import Octo.Foundation.Kleene

/-!
# Disjunctive normal form of a WHERE clause

Before a query is split into one plan per disjunct, its WHERE clause is rewritten by
`lp_make_normal_disjunctive_form`: negations are pushed down to the leaves by `lp_apply_not` under
a counter of the negations passed so far, and conjunctions are distributed over disjunctions. The
model keeps what the two functions read of a leaf: its action type, whether its right operand is a
NULL value, and whether its left operand is a whole row such as `t1.*`. The rewritten nodes are
reached once from the root, so that the in-place updates of the source become a new tree.
-/
namespace Octo.Logical

open Kleene

/-- The six comparison operators, which also occur under ANY and ALL. -/
inductive Comparison where
  | equals
  | notEquals
  | lessThan
  | greaterThan
  | lessThanOrEquals
  | greaterThanOrEquals
  deriving DecidableEq, Repr

/-- The comparison that `lp_apply_not` puts in place of another. -/
def Comparison.complement : Comparison → Comparison
  | .equals => .notEquals
  | .notEquals => .equals
  | .lessThan => .greaterThanOrEquals
  | .greaterThan => .lessThanOrEquals
  | .lessThanOrEquals => .greaterThan
  | .greaterThanOrEquals => .lessThan

/-- The six pattern operators. -/
inductive RegexType where
  | sensitive
  | insensitive
  | sensitiveLike
  | insensitiveLike
  | sensitiveSimilarTo
  | insensitiveSimilarTo
  deriving DecidableEq, Repr

/-- Boolean leaves whose action type stands before `LP_ADDITION` in the enumeration. -/
inductive OperandType where
  | selectQuery
  | setOperation
  | columnAlias
  | derivedColumn
  | value
  | functionCall
  | greatest
  | least
  | nullIf
  | coalesceCall
  | caseExpression
  deriving DecidableEq, Repr

/-- The action types of the boolean leaves of a WHERE clause. -/
inductive LeafType where
  | comparison (operator : Comparison)
  | anyComparison (operator : Comparison)
  | allComparison (operator : Comparison)
  | inList
  | notInList
  | existsQuery
  | notExistsQuery
  | isValue
  | isNotValue
  | regex (type : RegexType)
  | coerceType
  | operand (type : OperandType)
  deriving DecidableEq, Repr

/-- The operands of a leaf: the address of its node and what the rewriting reads of them. -/
structure Operands where
  address : Nat
  /-- `operand[1]` is an `LP_VALUE` of type `NUL_VALUE`. -/
  nullRight : Bool
  /-- `operand[0]` is a column that stands for a whole row. -/
  tableAsterisk : Bool
  deriving DecidableEq, Repr

/-- A WHERE clause. -/
inductive LogicalPlan where
  | booleanNot (operand : LogicalPlan)
  | booleanAnd (left right : LogicalPlan)
  | booleanOr (left right : LogicalPlan)
  | leaf (type : LeafType) (operands : Operands)
  deriving DecidableEq, Repr

/-! ## Pushing negations down -/

/-- The type that replaces a negated leaf's type; the types of the `default` branch have none. -/
def LeafType.flip : LeafType → Option LeafType
  | .comparison operator => some (.comparison operator.complement)
  | .anyComparison operator => some (.allComparison operator.complement)
  | .allComparison operator => some (.anyComparison operator.complement)
  | .inList => some .notInList
  | .notInList => some .inList
  | .existsQuery => some .notExistsQuery
  | .notExistsQuery => some .existsQuery
  | .isValue => some .isNotValue
  | .isNotValue => some .isValue
  | .regex _ | .coerceType | .operand _ => none

/-- The types that a NOT directly above them is kept for. -/
def LeafType.cannotApplyNot : LeafType → Bool
  | .regex _ | .coerceType | .operand _ => true
  | _ => false

/-- The leaf tests its left operand with `IS NULL` or `IS NOT NULL`. -/
def isNullTest (type : LeafType) (operands : Operands) : Bool :=
  (type == .isValue || type == .isNotValue) && operands.nullRight

/-- The plan is an `IS NULL` or `IS NOT NULL` test. -/
def LogicalPlan.isNullTest : LogicalPlan → Bool
  | .leaf type operands => Logical.isNullTest type operands
  | _ => false

/-- The left operand of the plan is a column that stands for a whole row. -/
def LogicalPlan.isTableAsterisk : LogicalPlan → Bool
  | .leaf _ operands => operands.tableAsterisk
  | _ => false

/-- The plan is of a type that the NOT operation cannot be applied to. -/
def LogicalPlan.cannotApplyNot : LogicalPlan → Bool
  | .leaf type _ => type.cannotApplyNot
  | _ => false

/-- `lp_apply_not`: applies a NOT to the plan when `count` is odd. The types that cannot be negated
are recognised only directly below a NOT node. -/
def lpApplyNot : LogicalPlan → Nat → LogicalPlan
  | .booleanNot notOperand, count =>
    if notOperand.isNullTest then
      if notOperand.isTableAsterisk then
        if count % 2 = 0 then .booleanNot notOperand else notOperand
      else lpApplyNot notOperand (count + 1)
    else if notOperand.cannotApplyNot then
      if count % 2 = 1 then notOperand else .booleanNot notOperand
    else lpApplyNot notOperand (count + 1)
  | .booleanOr left right, count =>
    if count % 2 = 1 then .booleanAnd (lpApplyNot left count) (lpApplyNot right count)
    else .booleanOr left right
  | .booleanAnd left right, count =>
    if count % 2 = 1 then .booleanOr (lpApplyNot left count) (lpApplyNot right count)
    else .booleanAnd left right
  | .leaf type operands, count =>
    -- The `default` branch of the source asserts; without assertions the leaf is kept as it is.
    if count % 2 = 1 then .leaf (type.flip.getD type) operands else .leaf type operands

/-! ## Distributing conjunctions -/

/-- The number of nodes of a plan. -/
def LogicalPlan.size : LogicalPlan → Nat
  | .booleanNot operand => operand.size + 1
  | .booleanAnd left right => left.size + right.size + 1
  | .booleanOr left right => left.size + right.size + 1
  | .leaf _ _ => 1

theorem size_lpApplyNot_le (plan : LogicalPlan) (count : Nat) :
    (lpApplyNot plan count).size ≤ plan.size := by
  fun_induction lpApplyNot plan count <;> simp only [LogicalPlan.size] at * <;> omega

/-- The two connectives of the nodes that the distribution builds. -/
inductive Connective where
  | conjunction
  | disjunction
  deriving DecidableEq, Repr

/-- A node of the given connective. -/
def Connective.node : Connective → LogicalPlan → LogicalPlan → LogicalPlan
  | .conjunction, left, right => .booleanAnd left right
  | .disjunction, left, right => .booleanOr left right

/-- The walk along an OR list: each term, and whether the node it was taken from is an OR. -/
def orList : LogicalPlan → List (LogicalPlan × Bool)
  | .booleanOr left right => (left, true) :: orList right
  | plan => [(plan, false)]

/-- The iterations of the two nested loops: `boolean_type` and the new AND node of each. -/
def combinations (left right : LogicalPlan) : List (Connective × LogicalPlan) :=
  (orList left).flatMap fun l =>
    (orList right).map fun r =>
      (if l.2 || r.2 then .disjunction else .conjunction, .booleanAnd l.1 r.1)

/-- The chain of nodes that the loops build, with its last item promoted. A node takes its
connective from the iteration before the one that fills it. -/
def chain (connective : Connective) :
    Connective × LogicalPlan → List (Connective × LogicalPlan) → LogicalPlan
  | item, [] => item.2
  | item, next :: rest => connective.node item.2 (chain item.1 next rest)

/-- The conjunction of two normal forms. -/
def distribute (left right : LogicalPlan) : LogicalPlan :=
  match combinations left right with
  | [] => .booleanAnd left right
  | item :: rest => chain item.1 item rest

/-- `lp_make_normal_disjunctive_form`. -/
def lpMakeNormalDisjunctiveForm (root : LogicalPlan) : LogicalPlan :=
  match _applied : lpApplyNot root 0 with
  | .booleanOr left right =>
    .booleanOr (lpMakeNormalDisjunctiveForm left) (lpMakeNormalDisjunctiveForm right)
  | .booleanAnd left right =>
    distribute (lpMakeNormalDisjunctiveForm left) (lpMakeNormalDisjunctiveForm right)
  | plan => plan
termination_by root.size
decreasing_by
  all_goals
    have bound := size_lpApplyNot_le root 0
    simp only [_applied, LogicalPlan.size] at bound
    omega

/-- The normal form of a plan that `lp_apply_not` turns into a disjunction. -/
theorem lpMakeNormalDisjunctiveForm_of_booleanOr {root left right : LogicalPlan}
    (applied : lpApplyNot root 0 = .booleanOr left right) :
    lpMakeNormalDisjunctiveForm root =
      .booleanOr (lpMakeNormalDisjunctiveForm left) (lpMakeNormalDisjunctiveForm right) := by
  rw [lpMakeNormalDisjunctiveForm]
  split
  case h_1 _ _ same =>
    cases applied.symm.trans same
    rfl
  case h_2 _ _ same => cases applied.symm.trans same
  case h_3 notOr _ => exact absurd applied (notOr left right)

theorem lpMakeNormalDisjunctiveForm_leaf (type : LeafType) (operands : Operands) :
    lpMakeNormalDisjunctiveForm (.leaf type operands) = .leaf type operands := by
  rw [lpMakeNormalDisjunctiveForm]
  split
  case h_1 same => cases same
  case h_2 same => cases same
  case h_3 => rfl

end Octo.Logical
