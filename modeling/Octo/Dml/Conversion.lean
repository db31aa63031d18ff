import Octo.Dml.Table

/-!
# Conversions to the type of a column

An INSERT converts a value to the type of its column. Texts with a size and numbers with a precision
are converted by the type of the column alone. The other conversions depend on the type of the
source column too: numbers are brought to their canonical form or rounded, and texts are read as
dates and times. How a text is read as a date or a time is a parameter. Numbers have any number of
digits here; the limit of the M runtime is not part of the program.
-/
namespace Octo.Dml

open Nat

/-! ## Types -/

/-- `SqlDataType`, the types of columns. -/
inductive SqlDataType where
  | boolean
  | integer
  | numeric
  | string
  | nul
  | date
  | time
  | timeWithTimeZone
  | timestamp
  | timestampWithTimeZone
deriving DecidableEq, Repr

/-- `SqlValueType`, the types of expressions. -/
inductive SqlValueType where
  | unknown
  | booleanValue
  | integerLiteral
  | numericLiteral
  | stringLiteral
  | booleanOrStringLiteral
  | nulValue
  | dateLiteral
  | timeLiteral
  | timeWithTimeZoneLiteral
  | timestampLiteral
  | timestampWithTimeZoneLiteral
deriving DecidableEq, Repr

/-- `get_sqlvaluetype_from_sqldatatype`. -/
def getSqlvaluetypeFromSqldatatype : SqlDataType → SqlValueType
  | .boolean => .booleanValue
  | .integer => .integerLiteral
  | .numeric => .numericLiteral
  | .string => .stringLiteral
  | .nul => .nulValue
  | .date => .dateLiteral
  | .time => .timeLiteral
  | .timeWithTimeZone => .timeWithTimeZoneLiteral
  | .timestamp => .timestampLiteral
  | .timestampWithTimeZone => .timestampWithTimeZoneLiteral

/-- `IS_DATE_TIME_DATA_TYPE`. -/
def SqlDataType.isDateTime : SqlDataType → Bool
  | .date | .time | .timeWithTimeZone | .timestamp | .timestampWithTimeZone => true
  | _ => false

/-- How the texts of a date/time column are written. -/
inductive DateTimeFormat where
  | horolog
  | zhorolog
  | fileman
  | zut
  | text
deriving DecidableEq, Repr

/-- `SqlDataTypeStruct`. -/
structure SqlDataTypeStruct where
  dataType : SqlDataType
  sizeOrPrecision : Option Nat
  scale : Option Nat
  format : DateTimeFormat
deriving DecidableEq, Repr

/-! ## Numbers -/

/-- A number of M: the coefficient divided by a power of ten. -/
structure MNumber where
  coefficient : Int
  places : Nat
deriving DecidableEq, Repr

open MNumber

/-- The signs in front of a number: whether it is negative, and what follows. -/
def skipSigns : List Char → Bool × List Char
  | '-' :: rest => (!(skipSigns rest).1, (skipSigns rest).2)
  | '+' :: rest => skipSigns rest
  | text => (false, text)

/-- The value of the digits at the beginning of a text. -/
def leadingDigits (text : List Char) : Nat :=
  Nat.ofDigitChars 10 (text.takeWhile Char.isDigit) 0

/-- The power of ten that a text begins with. -/
def exponent : List Char → Int
  | 'E' :: '-' :: rest => -(leadingDigits rest : Int)
  | 'E' :: '+' :: rest => leadingDigits rest
  | 'E' :: rest => leadingDigits rest
  | _ => 0

/-- The number that a text begins with. -/
def MNumber.ofText (text : MString) : MNumber :=
  let signs := skipSigns text.letters
  let whole := signs.2.takeWhile Char.isDigit
  let behind := signs.2.dropWhile Char.isDigit
  let fraction :=
    match behind with
    | '.' :: rest => rest.takeWhile Char.isDigit
    | _ => []
  let rest :=
    match behind with
    | '.' :: rest => rest.dropWhile Char.isDigit
    | _ => behind
  let digits := Nat.ofDigitChars 10 (whole ++ fraction) 0
  let power := if whole ++ fraction = [] then 0 else exponent rest
  { coefficient := (if signs.1 then -1 else 1) * digits * 10 ^ power.toNat
    places := fraction.length + (-power).toNat }

/-- The digits behind the point. -/
def MNumber.fraction (number : MNumber) : List Char :=
  (Nat.toDigits 10 (number.coefficient.natAbs % 10 ^ number.places)).leftpad number.places '0'

/-- The digits in front of the point, as a number. -/
def MNumber.whole (number : MNumber) : Nat :=
  number.coefficient.natAbs / 10 ^ number.places

/-- The sign of a number in its text. -/
def MNumber.sign (number : MNumber) : List Char :=
  if number.coefficient < 0 then ['-'] else []

/-- The canonical text of a number. -/
def MNumber.text (number : MNumber) : MString :=
  let fraction := number.fraction.rdropWhile (· == '0')
  .ofLetters (number.sign ++
    (if number.whole = 0 ∧ fraction ≠ [] then [] else Nat.toDigits 10 number.whole) ++
    (if fraction = [] then [] else '.' :: fraction))

/-- The nearest number with so many digits behind the point. -/
def MNumber.round (number : MNumber) (digits : Nat) : MNumber :=
  let unit := 10 ^ number.places
  let nearest := (2 * (number.coefficient.natAbs * 10 ^ digits) + unit) / (2 * unit)
  { coefficient := if number.coefficient < 0 then -nearest else nearest
    places := digits }

/-- `+text`. -/
def plus (text : MString) : MString :=
  (MNumber.ofText text).text

/-- `$FNUMBER(text,"",digits)`. -/
def fnumber (text : MString) (digits : Nat) : MString :=
  let number := (MNumber.ofText text).round digits
  .ofLetters (number.sign ++ Nat.toDigits 10 number.whole ++
    (if digits = 0 then [] else '.' :: number.fraction))

/-! ## Conversions -/

/-- `Cast2NUMERICWithPrecision`. -/
def cast2NUMERICWithPrecision (number : MString) (precision scale : Nat) :
    Except String MString :=
  let rounded := (MNumber.ofText number).round scale
  if 10 ^ (precision - scale) ≤ rounded.whole then
    .error (s!"Numeric field overflow; A field with precision {precision}, scale {scale} " ++
      s!"must round to an absolute value less than 10^{precision - scale}")
  else .ok rounded.text

/-- `SizeCheckVARCHAR`: spaces at the end may be too many. -/
def sizeCheckVARCHAR (string : MString) (size : Nat) : Except String MString :=
  if string.letters.length ≤ size then .ok string
  else if (string.letters.drop size).all (· == ' ') then .ok (.ofLetters (string.letters.take size))
  else .error s!"Value too long for type VARCHAR({size})"

/-- The conversion of a value to the type of its column. `toUnixTime` reads a text as a date or a
time. -/
def convert (toUnixTime : DateTimeFormat → SqlDataType → MString → Except String (Option MString))
    (target : SqlDataTypeStruct) (source : SqlValueType) :
    Option MString → Except String (Option MString)
  | none => .ok none
  | some text =>
    match target.dataType with
    | .numeric =>
      match target.sizeOrPrecision with
      | some precision =>
        (cast2NUMERICWithPrecision text precision (target.scale.getD 0)).map some
      | none =>
        match source with
        | .numericLiteral | .integerLiteral => .ok (some (plus text))
        | _ => .ok (some text)
    | .string =>
      match target.sizeOrPrecision with
      | some size => (sizeCheckVARCHAR text size).map some
      | none => .ok (some text)
    | .nul | .boolean => .ok (some text)
    | _ =>
      match source with
      -- `ROUND(text,0)`
      | .numericLiteral => .ok (some (fnumber text 0))
      | .integerLiteral => .ok (some (plus text))
      | .stringLiteral =>
        if target.dataType.isDateTime then
          (toUnixTime target.format target.dataType text).map (Option.map plus)
        else .ok (some text)
      | _ => .ok (some text)

/-! ## Numbers in canonical form -/

theorem skipSigns_of_isDigit {digit : Char} {rest : List Char} (isDigit : digit.isDigit = true) :
    skipSigns (digit :: rest) = (false, digit :: rest) := by
  unfold skipSigns
  split
  case h_1 found => simp_all
  case h_2 found => simp_all
  case h_3 => rfl

theorem ofText_toDigits (number : Nat) :
    ofText (.ofLetters (toDigits 10 number)) = ⟨number, 0⟩ := by
  have areDigits : ∀ digit ∈ toDigits 10 number, digit.isDigit = true :=
    fun digit member => isDigit_of_mem_toDigits (by decide) (by decide) member
  have unsigned : skipSigns (toDigits 10 number) = (false, toDigits 10 number) := by
    cases digits : toDigits 10 number with
    | nil => rfl
    | cons first rest => exact skipSigns_of_isDigit (areDigits first (by simp [digits]))
  have whole : (toDigits 10 number).takeWhile Char.isDigit = toDigits 10 number :=
    List.takeWhile_eq_self_iff.mpr areDigits
  have nothing : (toDigits 10 number).dropWhile Char.isDigit = [] :=
    List.dropWhile_eq_nil_iff.mpr areDigits
  simp [ofText, MString.letters, MString.ofLetters, unsigned, whole, nothing, exponent]

/-- The canonical text of a whole number is kept. -/
theorem plus_toDigits (number : Nat) :
    plus (.ofLetters (toDigits 10 number)) = .ofLetters (toDigits 10 number) := by
  have positive : ¬(number : Int) < 0 := by omega
  rw [plus, ofText_toDigits]
  simp [positive, text, fraction, whole, sign, mod_one]

end Octo.Dml
