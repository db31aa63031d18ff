import Mathlib

/-!
# M values and their collation

A value is a string of bytes or the null value of SQL. The subscripts of a local array are ordered:
the null string comes first, the strings that are written as M writes a number follow by their
number, all other strings follow by their bytes, and the null value is the last subscript.
-/

/-- A string of M, or the null value. -/
inductive MValue
  | text (bytes : List UInt8)
  | null
deriving DecidableEq, Repr

namespace MValue

open List

/-! ## Canonical numbers -/

def isDigit (byte : UInt8) : Bool :=
  48 ≤ byte && byte ≤ 57

/-- The number that digits spell. -/
def digitsNumber (digits : List UInt8) : Nat :=
  digits.foldl (fun number digit => number * 10 + (digit.toNat - 48)) 0

/-- The digits of a number that count towards its precision. -/
def significant (digits : List UInt8) : Nat :=
  ((digits.dropWhile (· == 48)).reverse.dropWhile (· == 48)).length

/-- The number that an unsigned string spells if it has no superfluous zero and no more digits than
M keeps. A fraction has no zero in front of the point. -/
def unsignedNumber (bytes : List UInt8) : Option ℚ :=
  let whole := bytes.takeWhile isDigit
  if whole.head? = some 48 then
    if bytes = [48] then some 0 else none
  else if 18 < significant (bytes.filter isDigit) then none
  else
    match bytes.dropWhile isDigit with
    | [] => if whole = [] then none else some (digitsNumber whole)
    | point :: fraction =>
      if point = 46 && fraction.all isDigit && fraction.getLast?.any (· != 48) then
        some (digitsNumber whole + digitsNumber fraction / (10 : ℚ) ^ fraction.length)
      else none

/-- The number that a string spells as M writes it. -/
def canonicalNumber : List UInt8 → Option ℚ
  | 45 :: bytes => if bytes = [48] then none else (unsignedNumber bytes).map (- ·)
  | bytes => unsignedNumber bytes

/-! ## The number of a string -/

/-- The digits behind a letter E, with their sign. -/
def exponent : List UInt8 → ℤ
  | 69 :: 45 :: digits => -digitsNumber (digits.takeWhile isDigit)
  | 69 :: 43 :: digits => digitsNumber (digits.takeWhile isDigit)
  | 69 :: digits => digitsNumber (digits.takeWhile isDigit)
  | _ => 0

/-- The digits behind a point, and what follows them. -/
def fraction : List UInt8 → List UInt8 × List UInt8
  | 46 :: bytes => (bytes.takeWhile isDigit, bytes.dropWhile isDigit)
  | bytes => ([], bytes)

/-- The number that arithmetic takes a string for: it reads signs, digits and an exponent as far as
it can. Numbers are exact, where M keeps 18 digits. -/
def numeric : List UInt8 → ℚ
  | 45 :: bytes => -numeric bytes
  | 43 :: bytes => numeric bytes
  | bytes =>
    let whole := bytes.takeWhile isDigit
    let (digits, behind) := fraction (bytes.dropWhile isDigit)
    if whole = [] ∧ digits = [] then 0
    else
      (digitsNumber whole + digitsNumber digits / (10 : ℚ) ^ digits.length) *
        (10 : ℚ) ^ exponent behind

theorem numeric_of_unsignedNumber {bytes : List UInt8} {value : ℚ}
    (spelled : unsignedNumber bytes = some value) : numeric bytes = value := by
  have unsigned (sign : UInt8) (notDigit : isDigit sign = false) (notPoint : sign ≠ 46)
      (rest : List UInt8) : bytes ≠ sign :: rest := by
    rintro rfl
    simp [unsignedNumber, notDigit, notPoint] at spelled
  rw [numeric.eq_3 _ (unsigned 45 (by decide) (by decide)) (unsigned 43 (by decide) (by decide))]
  unfold unsignedNumber at spelled
  dsimp only at spelled ⊢
  split at spelled
  · split at spelled
    · rename_i isZero
      subst isZero
      cases spelled
      have digit : isDigit 48 = true := by decide
      simp [digit, fraction, digitsNumber]
    · cases spelled
  · split at spelled
    · cases spelled
    · split at spelled
      · rename_i noPoint
        split at spelled
        · cases spelled
        · rename_i hasDigits
          cases spelled
          simp [noPoint, hasDigits, fraction, exponent, digitsNumber]
      · rename_i point digits hasPoint
        split at spelled
        · rename_i wellFormed
          simp only [Bool.and_eq_true, decide_eq_true_eq] at wellFormed
          obtain ⟨⟨rfl, allDigits⟩, lastNotZero⟩ := wellFormed
          cases spelled
          have notEmpty : digits ≠ [] := by
            rintro rfl
            cases lastNotZero
          have allTaken : digits.takeWhile isDigit = digits :=
            takeWhile_eq_self_iff.mpr (all_eq_true.mp allDigits)
          have noneLeft : digits.dropWhile isDigit = [] :=
            dropWhile_eq_nil_iff.mpr (all_eq_true.mp allDigits)
          simp [hasPoint, fraction, allTaken, noneLeft, notEmpty, exponent]
        · cases spelled

/-- Arithmetic reads a string that M writes for a number as that number. -/
theorem numeric_of_canonicalNumber {bytes : List UInt8} {value : ℚ}
    (spelled : canonicalNumber bytes = some value) : numeric bytes = value := by
  unfold canonicalNumber at spelled
  split at spelled
  · split at spelled
    · cases spelled
    · obtain ⟨positive, found, rfl⟩ := Option.map_eq_some_iff.mp spelled
      rw [numeric, numeric_of_unsignedNumber found]
  · exact numeric_of_unsignedNumber spelled

/-! ## The order of subscripts -/

/-- The group of a subscript: the null string, numbers, other strings and the null value. -/
def group : MValue → ℕ
  | text bytes => if bytes = [] then 0 else if (canonicalNumber bytes).isSome then 1 else 2
  | null => 3

/-- The number of a subscript in the group of the numbers. -/
def number : MValue → ℚ
  | text bytes => (canonicalNumber bytes).getD 0
  | null => 0

/-- The bytes of a string as numbers. -/
def codes : MValue → List ℕ
  | text bytes => bytes.map UInt8.toNat
  | null => []

/-- The place of a value among the subscripts. -/
def collation (value : MValue) : ℕ ×ₗ ℚ ×ₗ List ℕ :=
  toLex (value.group, toLex (value.number, value.codes))

theorem group_text_lt (bytes : List UInt8) : (text bytes).group < null.group := by
  unfold group
  dsimp only
  split
  · decide
  · split <;> decide

theorem map_toNat_injective : Function.Injective (map UInt8.toNat) :=
  map_injective_iff.mpr fun _ _ => UInt8.toNat_inj.mp

theorem collation_injective : Function.Injective collation := by
  intro first second same
  have groups : first.group = second.group := congrArg (fun key => (ofLex key).1) same
  have codes : first.codes = second.codes := congrArg (fun key => (ofLex (ofLex key).2).2) same
  cases first with
  | text bytes =>
    cases second with
    | text others => rw [map_toNat_injective codes]
    | null => exact absurd groups (group_text_lt bytes).ne
  | null =>
    cases second with
    | text others => exact absurd groups (group_text_lt others).ne'
    | null => rfl

instance : LinearOrder MValue where
  __ := PartialOrder.lift collation collation_injective
  le_total first second := le_total first.collation second.collation
  toDecidableLE first second := inferInstanceAs (Decidable (first.collation ≤ second.collation))
  toDecidableEq := instDecidableEqMValue

theorem lt_iff {first second : MValue} :
    first < second ↔ first.group < second.group ∨ first.group = second.group ∧
      (first.number < second.number ∨
        first.number = second.number ∧ first.codes < second.codes) := by
  change first.collation < second.collation ↔ _
  unfold collation
  rw [Prod.Lex.toLex_lt_toLex, Prod.Lex.toLex_lt_toLex]

/-- Numbers are ordered by their value. -/
theorem numeric_le_of_text_lt {first second : List UInt8}
    (firstNumber : (canonicalNumber first).isSome = true)
    (secondNumber : (canonicalNumber second).isSome = true) (less : text first < text second) :
    numeric first ≤ numeric second := by
  have inGroup {bytes : List UInt8} (isNumber : (canonicalNumber bytes).isSome = true) :
      (text bytes).group = 1 ∧ (text bytes).number = numeric bytes := by
    obtain ⟨value, spelled⟩ := Option.isSome_iff_exists.mp isNumber
    have notEmpty : bytes ≠ [] := by
      rintro rfl
      simp [canonicalNumber, unsignedNumber] at spelled
    simp [group, number, notEmpty, spelled, numeric_of_canonicalNumber spelled]
  rw [lt_iff] at less
  grind

/-- The null value is the last subscript. -/
theorem text_lt_null (bytes : List UInt8) : text bytes < null :=
  lt_iff.mpr (Or.inl (group_text_lt bytes))

/-- The null string is the first subscript. -/
instance : OrderBot MValue where
  bot := text []
  bot_le value := by
    rcases eq_or_ne value (text []) with rfl | differs
    · exact le_refl _
    · refine (lt_iff.mpr (Or.inl ?_)).le
      cases value with
      | text bytes =>
        have notEmpty : bytes ≠ [] := fun isEmpty => differs (congrArg text isEmpty)
        simp only [group, if_true, if_neg notEmpty]
        split <;> decide
      | null => decide

theorem bot_eq : (⊥ : MValue) = text [] :=
  rfl

end MValue
