import Octo.Foundation.Collation
import Octo.PlanHelpers.Mval

/-!
# IS and IS NOT

`tmpl_print_expression` prints a test for NULL, UNKNOWN, TRUE or FALSE in one of two forms: as one M
expression, or as lines with dots that leave its value in `%ydboctoexpr`. A test for TRUE or FALSE
is printed as a comparison, and so it is NULL for an operand that is NULL.
-/
namespace Octo.Physical

open PlanHelpers

/-! ## The operators of M -/

/-- A truth value of M. -/
def mBoolean (value : Bool) : MValue := .text [if value then 49 else 48]

/-- `$ZYISSQLNULL`, with a `'` before it when `isNot` is set. -/
def zyIsSqlNull (isNot : Bool) (value : MValue) : MValue := mBoolean ((value == .null) != isNot)

/-- `=`, or `'=` when `isNot` is set. The null value is neither equal nor unequal to a value. -/
def mEquals (isNot : Bool) : MValue → MValue → MValue
  | .text first, .text second => mBoolean ((first == second) != isNot)
  | _, _ => .null

theorem mEquals_comm (isNot : Bool) (first second : MValue) :
    mEquals isNot first second = mEquals isNot second first := by
  cases first <;> cases second <;> simp [mEquals, Bool.beq_comm]

/-! ## Tests of rows -/

/-- The loop of `RowIsNull` and `RowIsNotNull` from column `i` on: it ends at the first column that
is not as it should be. -/
def rowIs (isNull : Bool) (mval : List UInt8) : (columns i : ℕ) → Bool
  | 0, _ => true
  | columns + 1, i =>
    if (mval2str (mvalPiece mval i)).isNone = isNull then rowIs isNull mval columns (i + 1)
    else false

/-- `RowIsNull`. -/
def rowIsNull (mval : List UInt8) (numCols : ℕ) : MValue := mBoolean (rowIs true mval numCols 1)

/-- `RowIsNotNull`. -/
def rowIsNotNull (mval : List UInt8) (numCols : ℕ) : MValue := mBoolean (rowIs false mval numCols 1)

/-! ## The printed code -/

/-- The right sides of the grammar. -/
inductive IsLiteral where
  | null | unknown | true | false
deriving DecidableEq, Repr

/-- The M value of a right side. `populate_data_type` turns UNKNOWN into NULL. -/
def IsLiteral.value : IsLiteral → MValue
  | .null | .unknown => .null
  | .true => mBoolean .true
  | .false => mBoolean .false

/-- `%ydboctoexpr`, and the nodes that it has for the depths of an expression. -/
structure ExprLocals where
  expr : MValue
  saved : ℕ → MValue

/-- An operand as it is printed: as an expression, and as lines that leave the value of the
expression in `%ydboctoexpr`. They may change the nodes below it. -/
structure IsOperand where
  inline : ExprLocals → MValue
  dotted : ExprLocals → ExprLocals
  dotted_expr (locals : ExprLocals) : (dotted locals).expr = inline locals

/-- The bytes of a row, which is never NULL. -/
def rowBytes : MValue → List UInt8
  | .text bytes => bytes
  | .null => []

/-- The test of an operand for NULL. `numCols` is the number of columns if it is a `T.*`. -/
def nullTest (isNot : Bool) (numCols : Option ℕ) (value : MValue) : MValue :=
  match numCols with
  | some numCols =>
    if isNot then rowIsNotNull (rowBytes value) numCols else rowIsNull (rowBytes value) numCols
  | none => zyIsSqlNull isNot value

/-- The two forms. The expression is at a depth, which is that of its node of `%ydboctoexpr`. -/
inductive PrintedForm where
  | inline
  | dotted (depth : ℕ)

/-- The value that the code for LP_BOOLEAN_IS, or LP_BOOLEAN_IS_NOT when `isNot` is set, leaves. -/
def printBooleanIs (form : PrintedForm) (isNot : Bool) (first : IsOperand) (numCols : Option ℕ)
    (second : IsLiteral) (locals : ExprLocals) : MValue :=
  let isNull := second.value = .null
  match form with
  | .inline =>
    if isNull then nullTest isNot numCols (first.inline locals)
    else mEquals isNot (first.inline locals) second.value
  | .dotted depth =>
    let locals := first.dotted locals
    if isNull then nullTest isNot numCols locals.expr
    else
      let locals := { locals with saved := Function.update locals.saved depth locals.expr }
      let locals := { locals with expr := second.value }
      mEquals isNot locals.expr (locals.saved depth)

section Printed

variable (form : PrintedForm) (isNot : Bool) (first : IsOperand) (numCols : Option ℕ)
  (second : IsLiteral) (locals : ExprLocals)

/-- Both forms have the same value. -/
theorem printBooleanIs_eq :
    printBooleanIs form isNot first numCols second locals =
      if second.value = .null then nullTest isNot numCols (first.inline locals)
      else mEquals isNot (first.inline locals) second.value := by
  cases form with
  | inline => rfl
  | dotted depth =>
    simp [printBooleanIs, first.dotted_expr, mEquals_comm isNot second.value]

/-- Whether a test has a truth value, and whether that of IS NOT is the other one if the operand is
no row. -/
def IsTwoValued : Prop :=
  ∃ whether : Bool → Bool,
    (∀ isNot, printBooleanIs form isNot first numCols second locals = mBoolean (whether isNot)) ∧
      (numCols = none → whether true = !whether false)

/-- A test has a truth value exactly when it is one for NULL or UNKNOWN or its operand is not
NULL. -/
theorem isTwoValued_iff :
    IsTwoValued form first numCols second locals ↔
      second.value = .null ∨ first.inline locals ≠ .null := by
  unfold IsTwoValued
  simp only [printBooleanIs_eq]
  by_cases isNull : second.value = .null
  · simp only [isNull, true_or, iff_true]
    cases numCols with
    | none => exact ⟨fun isNot => (first.inline locals == .null) != isNot, fun _ => rfl, by simp⟩
    | some numCols =>
      refine ⟨fun isNot => rowIs (!isNot) (rowBytes (first.inline locals)) numCols 1, ?_, by simp⟩
      rintro (_ | _) <;> rfl
  · obtain ⟨literal, value⟩ : ∃ literal, second.value = .text literal := by
      cases second <;> simp [IsLiteral.value, mBoolean] at isNull ⊢
    simp only [value]
    cases operand : first.inline locals with
    | null => simp [mEquals, mBoolean]
    | text bytes =>
      exact iff_of_true ⟨fun isNot => (bytes == literal) != isNot, fun _ => rfl, by simp⟩ (by simp)

end Printed

/-- `NULL IS TRUE` is NULL. -/
theorem null_is_true :
    printBooleanIs .inline .false ⟨fun _ => .null, fun locals => { locals with expr := .null },
      fun _ => rfl⟩ none .true ⟨.null, fun _ => .null⟩ = .null := by
  decide

end Octo.Physical
