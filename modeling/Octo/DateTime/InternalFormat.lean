import Mathlib

/-!
# Internal format of date/time values

A date/time value travels through the generated M code as one integer: the decimal text of the
whole seconds since the epoch followed by six digits of microseconds. This module models the text
that `ydboctoText2InternalFormatC` builds, its reading as an M number, the two macros that append
and strip the microsecond digits, and the comparisons that the expression template emits on it.
The whole seconds are the result of `strptime` and `utc_mktime`, which are not modelled; every
seconds value is allowed.
-/
namespace Octo.DateTime

open List Int

/-- The date/time types that have an internal format. -/
inductive DateTimeType where
  | date
  | time
  | timeWithTimeZone
  | timestamp
  | timestampWithTimeZone
  deriving DecidableEq, Repr

/-- The `strptime` format under which literals of a type are converted. -/
def DateTimeType.textFormat : DateTimeType → String
  | .date => "%m/%d/%Y"
  | .time => "%H:%M:%S"
  | .timeWithTimeZone => "%H:%M:%S%z"
  | .timestamp => "%m/%d/%Y %H:%M:%S"
  | .timestampWithTimeZone => "%m/%d/%Y %H:%M:%S%z"

/-! ## The text of the microseconds -/

/-- The suffix of `text` that starts at the first `wanted` character, as C's `strchr` finds it. -/
def strchr (wanted : Char) : List Char → Option (List Char)
  | [] => none
  | c :: rest => if c = wanted then some (c :: rest) else strchr wanted rest

/-- The characters copied into `micro`: everything up to the sign of a time zone. -/
def copyMicro : List Char → List Char
  | [] => []
  | c :: rest => if c = '+' ∨ c = '-' then [] else c :: copyMicro rest

/-- Fills the remaining places of `micro` with zeros. -/
def padMicro (digits : List Char) : List Char :=
  digits ++ List.replicate (6 - digits.length) '0'

/-- The fraction digits that a time text spells after its first dot. -/
def fractionDigits (timeStr : List Char) : List Char :=
  match strchr '.' timeStr with
  | none => []
  | some suffix => copyMicro suffix.tail

/-- The final contents of the `micro` buffer: its initial zeros when the format has no seconds. -/
def microText (format timeStr : List Char) : List Char :=
  if (strchr 'S' format).isSome then padMicro (fractionDigits timeStr) else padMicro []

/-- A literal that passed validation: its fraction is at most six decimal digits, so that it fits
the `micro` buffer. -/
structure TimeText where
  chars : List Char
  short : (fractionDigits chars).length ≤ 6
  numeric : ∀ c ∈ fractionDigits chars, c.isDigit = true

/-- The text that `sprintf` writes for a `%ld` argument. -/
def decimalText (value : Int) : List Char :=
  if value < 0 then '-' :: Nat.toDigits 10 value.natAbs else Nat.toDigits 10 value.natAbs

/-- The text returned by `ydboctoText2InternalFormatC`, where `opTime` is the result of
`utc_mktime` on the parsed literal. -/
def ydboctoText2InternalFormat (opTime : Int) (format timeStr : List Char) : List Char :=
  decimalText opTime ++ microText format timeStr

/-- M's numeric reading of a text: an optional minus sign and the digits that follow. -/
def mNumber : List Char → Int
  | '-' :: rest => -(Nat.ofDigitChars 10 (rest.takeWhile Char.isDigit) 0 : Nat)
  | text => (Nat.ofDigitChars 10 (text.takeWhile Char.isDigit) 0 : Nat)

/-! ## The microsecond macros -/

/-- The array filled by `ADD_MICRO_SECONDS`, last digit first. -/
def microArr : Nat → Nat → List Int
  | 0, _ => []
  | places + 1, micro => microArr places (micro / 10) ++ [((micro % 10 : Nat) : Int)]

/-- `ADD_MICRO_SECONDS`: appends six digits, away from zero when the value is negative. -/
def addMicroSeconds (value : Int) (micro : Nat) : Int :=
  (microArr 6 micro).foldl
    (fun sofar digit => if value < 0 then sofar * 10 - digit else sofar * 10 + digit) value

/-- The array of `ADD_MICRO_SECONDS`: C's remainder has the sign of the microseconds. -/
def signedMicroArr : Nat → Int → List Int
  | 0, _ => []
  | places + 1, micro => signedMicroArr places (micro.tdiv 10) ++ [micro.tmod 10]

/-- `ADD_MICRO_SECONDS` with microseconds of any sign. -/
def addSignedMicroSeconds (value micro : Int) : Int :=
  (signedMicroArr 6 micro).foldl
    (fun sofar digit => if value < 0 then sofar * 10 - digit else sofar * 10 + digit) value

/-- The loop of `REMOVE_MICRO_SECONDS`, with C's truncating division. -/
def removeMicroLoop : Nat → Int → Int → Int → Int × Int
  | 0, value, micro, _ => (value, micro)
  | places + 1, value, micro, mult =>
    removeMicroLoop places (value.tdiv 10) (micro + value.tmod 10 * mult) (mult * 10)

/-- `REMOVE_MICRO_SECONDS`: the remaining seconds and the stripped microseconds. -/
def removeMicroSeconds (value : Int) : Int × Nat :=
  let (seconds, micro) := removeMicroLoop 6 value 0 1
  (seconds, micro.natAbs)

/-! ## Values of the pieces -/

/-- The microseconds that a literal denotes under a format. -/
def microSeconds (format : List Char) (text : TimeText) : Nat :=
  Nat.ofDigitChars 10 (microText format text.chars) 0

variable {digits : List Char}

theorem length_padMicro (short : digits.length ≤ 6) : (padMicro digits).length = 6 := by
  simp only [padMicro, length_append, length_replicate]
  omega

theorem isDigit_of_mem_padMicro {c : Char} (numeric : ∀ d ∈ digits, d.isDigit = true)
    (member : c ∈ padMicro digits) : c.isDigit = true := by
  rcases mem_append.mp member with inDigits | inPadding
  · exact numeric c inDigits
  · rw [eq_of_mem_replicate inPadding]
    rfl

variable (format : List Char)
variable (text : TimeText) (numeric : ∀ c ∈ digits, c.isDigit = true) (value : Int) (places : Nat)

/-- The `micro` buffer always holds six characters. -/
theorem length_microText :
    (microText format text.chars).length = 6 := by
  unfold microText
  split
  · exact length_padMicro text.short
  · exact length_padMicro (by simp)

theorem isDigit_of_mem_microText {c : Char}
    (member : c ∈ microText format text.chars) : c.isDigit = true := by
  unfold microText at member
  split at member
  · exact isDigit_of_mem_padMicro text.numeric member
  · exact isDigit_of_mem_padMicro (by simp) member

include numeric in
/-- A digit string denotes less than the power of ten of its length. -/
theorem ofDigitChars_lt_pow :
    Nat.ofDigitChars 10 digits 0 < 10 ^ digits.length := by
  induction digits with
  | nil => simp
  | cons c rest ih =>
    have restBound := ih (fun d member => numeric d (mem_cons_of_mem c member))
    have headBound : c.toNat - '0'.toNat ≤ 9 := by
      have digit := numeric c mem_cons_self
      simp only [Char.isDigit, Bool.and_eq_true, decide_eq_true_eq] at digit
      have upper : c.toNat ≤ '9'.toNat := digit.2
      have nine : '9'.toNat = 57 := rfl
      have zero : '0'.toNat = 48 := rfl
      omega
    have headShift : 10 ^ rest.length * (c.toNat - '0'.toNat) ≤ 10 ^ rest.length * 9 :=
      Nat.mul_le_mul_left _ headBound
    rw [Nat.ofDigitChars_cons, Nat.ofDigitChars_eq_ofDigitChars_zero, length_cons, Nat.zero_add]
    omega

theorem microSeconds_lt :
    microSeconds format text < 1000000 := by
  have bound := ofDigitChars_lt_pow (fun _ => isDigit_of_mem_microText format text)
  rw [length_microText] at bound
  simpa [microSeconds] using bound

include numeric in
/-- M reads a digit string to its end. -/
theorem mNumber_digits :
    mNumber digits = (Nat.ofDigitChars 10 digits 0 : Nat) := by
  have whole : digits.takeWhile Char.isDigit = digits := takeWhile_eq_self_iff.mpr numeric
  cases digits with
  | nil => rfl
  | cons c rest =>
    have notMinus : c ≠ '-' := by
      rintro rfl
      exact absurd (numeric '-' mem_cons_self) (by decide)
    unfold mNumber
    split
    · rename_i minus
      exact absurd (cons.inj minus).1 notMinus
    · rw [whole]

include numeric in
theorem mNumber_minus_digits :
    mNumber ('-' :: digits) = -(Nat.ofDigitChars 10 digits 0 : Nat) := by
  have whole : digits.takeWhile Char.isDigit = digits := takeWhile_eq_self_iff.mpr numeric
  simp only [mNumber, whole]

/-- The number that M reads from an internal format: the microseconds move it away from zero. -/
def internalNumber (seconds : Int) (micro : Nat) : Int :=
  if seconds < 0 then seconds * 1000000 - micro else seconds * 1000000 + micro

/-- The internal format of a literal denotes `internalNumber` of its seconds and microseconds. -/
theorem mNumber_ydboctoText2InternalFormat (opTime : Int) (format : List Char) (text : TimeText) :
    mNumber (ydboctoText2InternalFormat opTime format text.chars) =
      internalNumber opTime (microSeconds format text) := by
  have numeric : ∀ c ∈ Nat.toDigits 10 opTime.natAbs ++ microText format text.chars,
      c.isDigit = true :=
    forall_mem_append.2 ⟨fun _ => Nat.isDigit_of_mem_toDigits (by decide) (by decide),
      fun _ => isDigit_of_mem_microText format text⟩
  have value : Nat.ofDigitChars 10 (Nat.toDigits 10 opTime.natAbs ++ microText format text.chars) 0
      = opTime.natAbs * 1000000 + microSeconds format text := by
    rw [Nat.ofDigitChars_append, Nat.ofDigitChars_eq_ofDigitChars_zero, length_microText,
      microSeconds, Nat.ofDigitChars_ten_toDigits, Nat.mul_comm]
  unfold ydboctoText2InternalFormat decimalText internalNumber
  split
  · rw [cons_append, mNumber_minus_digits numeric]
    omega
  · rw [mNumber_digits numeric]
    omega

/-! ## The macros agree with the text -/

/-- Subtracting the digits is adding them to the opposite value. -/
theorem foldl_sub_eq_neg (digits : List Int) (value : Int) :
    digits.foldl (fun sofar digit => sofar * 10 - digit) value =
      -digits.foldl (fun sofar digit => sofar * 10 + digit) (-value) := by
  induction digits generalizing value with
  | nil => simp
  | cons digit rest ih =>
    simp only [foldl_cons]
    rw [ih]
    ring_nf

theorem foldl_signedMicroArr (value micro : Int) (bounded : micro.natAbs < 10 ^ places) :
    (signedMicroArr places micro).foldl (fun sofar digit => sofar * 10 + digit) value =
      value * 10 ^ places + micro := by
  induction places generalizing micro with
  | zero =>
    have : micro = 0 := by simpa using bounded
    simp [signedMicroArr, this]
  | succ places ih =>
    have smaller : (micro.tdiv 10).natAbs < 10 ^ places := by
      rw [natAbs_tdiv]
      exact Nat.div_lt_of_lt_mul (pow_succ' 10 places ▸ bounded)
    have parts := tmod_add_mul_tdiv micro 10
    rw [signedMicroArr, foldl_append, ih (micro.tdiv 10) smaller]
    simp only [foldl_cons, foldl_nil, pow_succ]
    rw [add_mul, mul_assoc]
    omega

theorem addSignedMicroSeconds_eq {micro : Int} (bounded : micro.natAbs < 1000000) :
    addSignedMicroSeconds value micro =
      if value < 0 then value * 1000000 - micro else value * 1000000 + micro := by
  unfold addSignedMicroSeconds
  split
  · rw [foldl_sub_eq_neg, foldl_signedMicroArr 6 _ _ bounded]
    ring
  · rw [foldl_signedMicroArr 6 _ _ bounded]
    ring

theorem microArr_eq (places micro : Nat) : microArr places micro = signedMicroArr places micro := by
  induction places generalizing micro with
  | zero => rfl
  | succ places ih => exact congrArg (· ++ _) (ih (micro / 10))

/-- `ADD_MICRO_SECONDS` computes the number that the text denotes. -/
theorem addMicroSeconds_eq_internalNumber (micro : Nat) (bounded : micro < 1000000) :
    addMicroSeconds value micro = internalNumber value micro := by
  rw [addMicroSeconds, microArr_eq]
  exact addSignedMicroSeconds_eq value bounded

/-- Truncating division by ten composes with division by a further power of ten. -/
theorem tdiv_ten_tdiv_pow :
    (value.tdiv 10).tdiv (10 ^ places) = value.tdiv (10 * 10 ^ places) := by
  have natural : ∀ count : Nat,
      ((count : Int).tdiv 10).tdiv (10 ^ places) = (count : Int).tdiv (10 * 10 ^ places) := by
    intro count
    rw [tdiv_eq_ediv_of_nonneg (natCast_nonneg count),
      tdiv_eq_ediv_of_nonneg (natCast_nonneg count), tdiv_eq_ediv_of_nonneg (by omega)]
    exact_mod_cast Nat.div_div_eq_div_mul count 10 (10 ^ places)
  rcases Int.eq_nat_or_neg value with ⟨count, rfl | rfl⟩
  · exact natural count
  · rw [Int.neg_tdiv, Int.neg_tdiv, Int.neg_tdiv, natural]

/-- The loop peels digits off a truncating quotient and remainder. -/
theorem removeMicroLoop_eq (value micro mult : Int) :
    removeMicroLoop places value micro mult =
      (value.tdiv (10 ^ places), micro + value.tmod (10 ^ places) * mult) := by
  induction places generalizing value micro mult with
  | zero => simp [removeMicroLoop]
  | succ places ih =>
    rw [removeMicroLoop, ih, pow_succ']
    have quotient := tdiv_ten_tdiv_pow value places
    have outer := tmod_add_mul_tdiv value (10 * 10 ^ places)
    have inner := tmod_add_mul_tdiv (value.tdiv 10) (10 ^ places)
    have first := tmod_add_mul_tdiv value 10
    rw [quotient] at inner ⊢
    have : value.tmod (10 * 10 ^ places) =
        value.tmod 10 + 10 * (value.tdiv 10).tmod (10 ^ places) := by
      linarith
    rw [this]
    ring_nf

/-- `REMOVE_MICRO_SECONDS` undoes `ADD_MICRO_SECONDS` for every seconds value. -/
theorem removeMicroSeconds_addMicroSeconds (micro : Nat) (bounded : micro < 1000000) :
    removeMicroSeconds (addMicroSeconds value micro) = (value, micro) := by
  have quotient : ∀ seconds : Int, 0 ≤ seconds →
      (seconds * 1000000 + micro).tdiv 1000000 = seconds := by
    intro seconds notNegative
    rw [tdiv_eq_ediv_of_nonneg (by omega)]
    omega
  rw [addMicroSeconds_eq_internalNumber value micro bounded]
  simp only [removeMicroSeconds, removeMicroLoop_eq, internalNumber, reducePow, mul_one,
    zero_add, natAbs_tmod, reduceAbs, Prod.mk.injEq]
  split
  case isTrue negative =>
    have opposite : value * 1000000 - micro = -(-value * 1000000 + micro) := by ring
    rw [opposite, Int.neg_tdiv, quotient (-value) (by omega)]
    omega
  case isFalse notNegative =>
    rw [quotient value (by omega)]
    omega

/-- The internal value determines the seconds and the microseconds. It is the number of the text. -/
theorem addMicroSeconds_determines (seconds : Int) {micro : Nat} (bounded : micro < 1000000) :
    removeMicroSeconds (addMicroSeconds seconds micro) = (seconds, micro) ∧
      (∀ other otherMicro, otherMicro < 1000000 →
        addMicroSeconds other otherMicro = addMicroSeconds seconds micro →
          (other, otherMicro) = (seconds, micro)) ∧
      ∀ format (text : TimeText), microSeconds format text = micro →
        mNumber (ydboctoText2InternalFormat seconds format text.chars) =
          addMicroSeconds seconds micro := by
  have inverts := removeMicroSeconds_addMicroSeconds seconds micro bounded
  refine ⟨inverts, fun other otherMicro otherBounded same => ?_, ?_⟩
  · rw [← removeMicroSeconds_addMicroSeconds other otherMicro otherBounded, same, inverts]
  · rintro format text rfl
    rw [mNumber_ydboctoText2InternalFormat, addMicroSeconds_eq_internalNumber _ _ bounded]

theorem addMicroSeconds_determines_beforeEpoch :
    removeMicroSeconds (addMicroSeconds (-1) 999999) = (-1, 999999) :=
  (addMicroSeconds_determines (-1) (by decide)).1

/-! ## Comparisons -/

/-- The four ordering comparisons of a logical plan. -/
inductive OrderComparison where
  | lessThan
  | greaterThan
  | lessThanOrEquals
  | greaterThanOrEquals
  deriving DecidableEq, Repr

/-- The local time zone: the offset that `localtime` gives for a time, and the time that `time`
returns, which is taken not to change during a comparison. -/
structure LocalZone where
  gmtoff : Int → Int
  currentTime : Int

/-- `convertToLocalTimezone`. -/
def convertToLocalTimezone (zone : LocalZone) (type : DateTimeType) (value : Int) : Int :=
  if type = .timeWithTimeZone then value + zone.gmtoff zone.currentTime
  else value + zone.gmtoff value

/-- `ydboctoConvertToLocalTimezoneC`. -/
def ydboctoConvertToLocalTimezone (zone : LocalZone) (type : DateTimeType) (value : Int) : Int :=
  let (seconds, micro) := removeMicroSeconds value
  addMicroSeconds (convertToLocalTimezone zone type seconds) micro

/-- The number that an operand of a comparison is for M. The call of `ConvertToLocalTimezone` is
emitted around the types with a time zone. -/
def emittedOperand (zone : LocalZone) (type : DateTimeType) (operand : List Char) : Int :=
  if type = .timeWithTimeZone ∨ type = .timestampWithTimeZone then
    ydboctoConvertToLocalTimezone zone type (mNumber operand)
  else mNumber operand

/-- The M operator emitted for a comparison of operands that are not strings: `<`, `>`, `'>` and
`'<`, each on the numeric readings of the operands. -/
def emittedComparison (zone : LocalZone) (type : DateTimeType) :
    OrderComparison → List Char → List Char → Bool
  | .lessThan, left, right =>
    decide (emittedOperand zone type left < emittedOperand zone type right)
  | .greaterThan, left, right =>
    decide (emittedOperand zone type left > emittedOperand zone type right)
  | .lessThanOrEquals, left, right =>
    !decide (emittedOperand zone type left > emittedOperand zone type right)
  | .greaterThanOrEquals, left, right =>
    !decide (emittedOperand zone type left < emittedOperand zone type right)

/-- The comparison of two instants on the time line. -/
def chronologicalComparison : OrderComparison → Int → Int → Bool
  | .lessThan, left, right => decide (left < right)
  | .greaterThan, left, right => decide (right < left)
  | .lessThanOrEquals, left, right => decide (left ≤ right)
  | .greaterThanOrEquals, left, right => decide (right ≤ left)

/-- The instant `seconds + micro / 10^6`, counted in microseconds. -/
def instantMicros (seconds : Int) (micro : Nat) : Int := seconds * 1000000 + micro

/-- The second that a value is compared as. -/
def comparedSeconds (zone : LocalZone) (type : DateTimeType) (seconds : Int) : Int :=
  if type = .timeWithTimeZone ∨ type = .timestampWithTimeZone then
    convertToLocalTimezone zone type seconds
  else seconds

theorem emittedOperand_ydboctoText2InternalFormat (zone : LocalZone) (type : DateTimeType)
    (seconds : Int) (text : TimeText) :
    emittedOperand zone type (ydboctoText2InternalFormat seconds type.textFormat.toList
      text.chars) =
      internalNumber (comparedSeconds zone type seconds)
        (microSeconds type.textFormat.toList text) := by
  have bounded := microSeconds_lt type.textFormat.toList text
  rw [emittedOperand, comparedSeconds, mNumber_ydboctoText2InternalFormat]
  split_ifs
  · rw [ydboctoConvertToLocalTimezone, ← addMicroSeconds_eq_internalNumber _ _ bounded,
      removeMicroSeconds_addMicroSeconds _ _ bounded]
    exact addMicroSeconds_eq_internalNumber _ _ bounded
  · rfl

/-- All four comparisons agree as soon as the two orders agree in both directions. -/
theorem emittedComparison_eq_chronological_iff (zone : LocalZone) (type : DateTimeType)
    (left right : List Char) (first second : Int) :
    (∀ comparison, emittedComparison zone type comparison left right =
        chronologicalComparison comparison first second) ↔
      ((emittedOperand zone type left < emittedOperand zone type right ↔ first < second) ∧
        (emittedOperand zone type right < emittedOperand zone type left ↔ second < first)) := by
  constructor
  · intro agrees
    have less := agrees .lessThan
    have greater := agrees .greaterThan
    simp only [emittedComparison, chronologicalComparison, decide_eq_decide] at less greater
    exact ⟨less, greater⟩
  · rintro ⟨less, greater⟩ comparison
    cases comparison <;>
      simp only [emittedComparison, chronologicalComparison, less, greater, ← decide_not, not_lt]

/-- Of two values at different seconds the first one is compared as the smaller: its second is
smaller in local time, or it is the same, after a change of the offset, and the microseconds decide,
backwards before the epoch. -/
def ComparedBefore (first second : Int) (firstMicro secondMicro : Nat) : Prop :=
  first < second ∨
    first = second ∧ if first < 0 then secondMicro < firstMicro else firstMicro < secondMicro

theorem internalNumber_lt_iff {first second : Int} {firstMicro secondMicro : Nat}
    (firstBounded : firstMicro < 1000000) (secondBounded : secondMicro < 1000000) :
    internalNumber first firstMicro < internalNumber second secondMicro ↔
      ComparedBefore first second firstMicro secondMicro := by
  unfold internalNumber ComparedBefore
  split <;> split <;> omega

/-- The order of two internal numbers is the order of the instants exactly unless both lie in the
same second before the epoch and differ in their microseconds. -/
theorem internalNumber_chronological_iff (firstSeconds secondSeconds : Int)
    {firstMicro secondMicro : Nat} (firstBounded : firstMicro < 1000000)
    (secondBounded : secondMicro < 1000000) :
    ((internalNumber firstSeconds firstMicro < internalNumber secondSeconds secondMicro ↔
        instantMicros firstSeconds firstMicro < instantMicros secondSeconds secondMicro) ∧
      (internalNumber secondSeconds secondMicro < internalNumber firstSeconds firstMicro ↔
        instantMicros secondSeconds secondMicro < instantMicros firstSeconds firstMicro)) ↔
      ¬(firstSeconds = secondSeconds ∧ firstSeconds < 0 ∧ firstMicro ≠ secondMicro) := by
  unfold internalNumber instantMicros
  split <;> split <;> omega

/-- Values that are compared as local times. Values of one second have one local time. -/
theorem comparedBefore_chronological_iff {first second firstLocal secondLocal : Int}
    {firstMicro secondMicro : Nat} (same : first = second → firstLocal = secondLocal)
    (firstBounded : firstMicro < 1000000) (secondBounded : secondMicro < 1000000) :
    ((ComparedBefore firstLocal secondLocal firstMicro secondMicro ↔
        instantMicros first firstMicro < instantMicros second secondMicro) ∧
      (ComparedBefore secondLocal firstLocal secondMicro firstMicro ↔
        instantMicros second secondMicro < instantMicros first firstMicro)) ↔
      ¬(first = second ∧ firstLocal < 0 ∧ firstMicro ≠ secondMicro) ∧
        (first < second → ComparedBefore firstLocal secondLocal firstMicro secondMicro) ∧
        (second < first → ComparedBefore secondLocal firstLocal secondMicro firstMicro) := by
  unfold ComparedBefore instantMicros
  rcases lt_trichotomy first second with before | rfl | after
  · split <;> split <;> omega
  · rw [same rfl]
    split <;> omega
  · split <;> split <;> omega

/-- The internal formats of two values of one date/time type have the order of the instants exactly
when the values do not share a second before the epoch with different microseconds. The comparisons
that are emitted are chronological exactly when the values do not share a second that is before the
epoch in local time, and come in local time in the order of their seconds. -/
theorem emittedComparison_chronological_iff (zone : LocalZone) (type : DateTimeType)
    (firstTime secondTime : Int) (firstText secondText : TimeText) :
    let first := ydboctoText2InternalFormat firstTime type.textFormat.toList firstText.chars
    let second := ydboctoText2InternalFormat secondTime type.textFormat.toList secondText.chars
    let firstMicro := microSeconds type.textFormat.toList firstText
    let secondMicro := microSeconds type.textFormat.toList secondText
    let firstLocal := comparedSeconds zone type firstTime
    let secondLocal := comparedSeconds zone type secondTime
    (((mNumber first < mNumber second ↔
          instantMicros firstTime firstMicro < instantMicros secondTime secondMicro) ∧
        (mNumber second < mNumber first ↔
          instantMicros secondTime secondMicro < instantMicros firstTime firstMicro)) ↔
      ¬(firstTime = secondTime ∧ firstTime < 0 ∧ firstMicro ≠ secondMicro)) ∧
    ((∀ comparison, emittedComparison zone type comparison first second =
        chronologicalComparison comparison (instantMicros firstTime firstMicro)
          (instantMicros secondTime secondMicro)) ↔
      ¬(firstTime = secondTime ∧ firstLocal < 0 ∧ firstMicro ≠ secondMicro) ∧
        (firstTime < secondTime → ComparedBefore firstLocal secondLocal firstMicro secondMicro) ∧
        (secondTime < firstTime →
          ComparedBefore secondLocal firstLocal secondMicro firstMicro)) := by
  intro first second firstMicro secondMicro firstLocal secondLocal
  have firstBounded : firstMicro < 1000000 := microSeconds_lt type.textFormat.toList firstText
  have secondBounded : secondMicro < 1000000 := microSeconds_lt type.textFormat.toList secondText
  constructor
  · rw [mNumber_ydboctoText2InternalFormat, mNumber_ydboctoText2InternalFormat]
    exact internalNumber_chronological_iff firstTime secondTime firstBounded secondBounded
  · rw [emittedComparison_eq_chronological_iff, emittedOperand_ydboctoText2InternalFormat,
      emittedOperand_ydboctoText2InternalFormat, internalNumber_lt_iff firstBounded secondBounded,
      internalNumber_lt_iff secondBounded firstBounded]
    exact comparedBefore_chronological_iff (congrArg (comparedSeconds zone type)) firstBounded
      secondBounded

/-- The literal `10:00:00.1`. -/
def tenAndATenth : TimeText :=
  ⟨"10:00:00.1".toList, by decide, List.all_eq_true.1 (by decide)⟩

/-- The literal `10:00:00.2`. -/
def tenAndTwoTenths : TimeText :=
  ⟨"10:00:00.2".toList, by decide, List.all_eq_true.1 (by decide)⟩

/-- The time zone of New York around the end of the summer time of 2023. -/
def newYork : LocalZone :=
  ⟨fun seconds => if seconds < 1699164000 then -14400 else -18000, 1699164000⟩

/-- TIME values lie before the epoch: `utc_mktime` gives -2209039200 for 10:00:00 on the zeroed
date, and there `10:00:00.1 < 10:00:00.2` is emitted as a false comparison. The timestamps of an
instant before the end of the summer time and one 45 minutes after it have the other order in local
time. -/
theorem emittedComparison_time_backwards :
    emittedComparison newYork .time .lessThan
        (ydboctoText2InternalFormat (-2209039200) DateTimeType.time.textFormat.toList
          tenAndATenth.chars)
        (ydboctoText2InternalFormat (-2209039200) DateTimeType.time.textFormat.toList
          tenAndTwoTenths.chars) ≠
      chronologicalComparison .lessThan
        (instantMicros (-2209039200) (microSeconds DateTimeType.time.textFormat.toList
          tenAndATenth))
        (instantMicros (-2209039200)
          (microSeconds DateTimeType.time.textFormat.toList tenAndTwoTenths)) ∧
    emittedComparison newYork .timestampWithTimeZone .lessThan
        (ydboctoText2InternalFormat 1699162200
          DateTimeType.timestampWithTimeZone.textFormat.toList tenAndATenth.chars)
        (ydboctoText2InternalFormat 1699164900
          DateTimeType.timestampWithTimeZone.textFormat.toList tenAndATenth.chars) ≠
      chronologicalComparison .lessThan
        (instantMicros 1699162200
          (microSeconds DateTimeType.timestampWithTimeZone.textFormat.toList tenAndATenth))
        (instantMicros 1699164900
          (microSeconds DateTimeType.timestampWithTimeZone.textFormat.toList tenAndATenth)) := by
  decide

end Octo.DateTime
