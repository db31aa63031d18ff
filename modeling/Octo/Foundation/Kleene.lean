import Mathlib

/-!
# Three-valued truth

Truth values of strong Kleene logic, the logic of SQL search conditions. A condition selects a row
only when it is `true`; `unknown` behaves as an undecided value under every connective. Disjunction
and conjunction form a commutative semiring, which is all that distributing one over the other
needs.
-/
namespace Kleene

/-- The three truth values. -/
inductive Truth where
  | false
  | unknown
  | true
  deriving DecidableEq, Repr

namespace Truth

/-- Negation leaves `unknown` undecided. -/
def not : Truth → Truth
  | .false => .true
  | .unknown => .unknown
  | .true => .false

/-- A conjunction is as false as its weaker side. -/
def and : Truth → Truth → Truth
  | .false, _ => .false
  | .true, right => right
  | .unknown, .false => .false
  | .unknown, _ => .unknown

/-- A disjunction is as true as its stronger side. -/
def or : Truth → Truth → Truth
  | .true, _ => .true
  | .false, right => right
  | .unknown, .true => .true
  | .unknown, _ => .unknown

/-- Negates a value when `odd` is set: the effect of a number of negations of that parity. -/
def negateIf (odd : Bool) (value : Truth) : Truth := if odd then value.not else value

variable (value : Truth)

@[simp] theorem not_not : value.not.not = value := by
  cases value <;> rfl

@[simp] theorem and_false : value.and .false = .false := by
  cases value <;> rfl

@[simp] theorem and_true : value.and .true = value := by
  cases value <;> rfl

@[simp] theorem or_false : value.or .false = value := by
  cases value <;> rfl

instance : Add Truth := ⟨or⟩

instance : Zero Truth := ⟨.false⟩

instance : Mul Truth := ⟨and⟩

instance : One Truth := ⟨.true⟩

variable (left right : Truth) (odd : Bool) (value : Truth)

theorem add_eq_or : left + right = left.or right := rfl

theorem mul_eq_and : left * right = left.and right := rfl

/-- Disjunction as addition and conjunction as multiplication. -/
instance : CommSemiring Truth where
  nsmul := nsmulRec
  npow := npowRec
  add_assoc first second third := by cases first <;> cases second <;> cases third <;> rfl
  zero_add _ := rfl
  add_zero := or_false
  add_comm first second := by cases first <;> cases second <;> rfl
  left_distrib first second third := by cases first <;> cases second <;> cases third <;> rfl
  right_distrib first second third := by cases first <;> cases second <;> cases third <;> rfl
  zero_mul _ := rfl
  mul_zero := and_false
  mul_assoc first second third := by cases first <;> cases second <;> cases third <;> rfl
  one_mul _ := rfl
  mul_one := and_true
  mul_comm first second := by cases first <;> cases second <;> rfl

/-- De Morgan's law for conjunctions. -/
theorem not_and : (left.and right).not = left.not.or right.not := by
  cases left <;> cases right <;> rfl

/-- De Morgan's law for disjunctions. -/
theorem not_or : (left.or right).not = left.not.and right.not := by
  cases left <;> cases right <;> rfl

@[simp] theorem negateIf_true : negateIf .true value = value.not := rfl

@[simp] theorem negateIf_false : negateIf .false value = value := rfl

theorem negateIf_bnot :
    negateIf (!odd) value = (negateIf odd value).not := by
  cases odd <;> simp

theorem negateIf_not :
    negateIf odd value.not = negateIf (!odd) value := by
  cases odd <;> simp

@[simp] theorem negateIf_negateIf :
    negateIf odd (negateIf odd value) = value := by
  cases odd <;> simp

/-- A conjunction is satisfied exactly when both sides are. -/
theorem and_eq_true_iff {left right : Truth} :
    left.and right = .true ↔ left = .true ∧ right = .true := by
  cases left <;> cases right <;> decide

/-- The truth value of a decision. -/
def ofBool : Bool → Truth
  | .true => .true
  | .false => .false

/-- The disjunction of a list is decided by a value that is satisfied, or else undecided by one. -/
theorem sum_eq (values : List Truth) :
    values.sum =
      if .true ∈ values then .true else if .unknown ∈ values then .unknown else .false := by
  induction values with
  | nil => rfl
  | cons value values ih =>
    rw [List.sum_cons, ih, add_eq_or]
    cases value <;> by_cases found : Truth.true ∈ values <;>
      by_cases undecided : unknown ∈ values <;>
      simp [found, undecided, or]

end Truth

end Kleene
