import Octo.DateTime.InternalFormat
import Octo.Foundation.Calendar

/-!
# Arithmetic on dates and times

`ydboctoAddDateTimeC`, `ydboctoSubDateTimeC` and `ydboctoSubDateC` for types without a time zone.
They strip the microseconds, compute on a broken-down time and append the microseconds again. The
fields of the broken-down time are C's `int` and the results C's `long`; both are taken to wrap
around. The float test on the microseconds is an exact comparison.
-/
namespace Octo.DateTime

open Octo.Foundation

/-! ## The functions -/

/-- The fields of `struct tm` that are read. -/
structure Tm extends CivilDate where
  hour : Int
  min : Int
  sec : Int

/-- `gmtime`. -/
def gmtime (value : Int) : Tm where
  toCivilDate := civilDate (value / 86400)
  hour := value % 86400 / 3600
  min := value % 3600 / 60
  sec := value % 60

/-- `utc_mktime`. -/
def utcMktime (tm : Tm) : Int :=
  tm.dayNumber * 86400 + tm.hour * 3600 + tm.min * 60 + tm.sec

/-- A number as an `int`. -/
def toInt (value : Int) : Int :=
  (value + 2147483648) % 4294967296 - 2147483648

/-- A number as a `long`. -/
def toLong (value : Int) : Int :=
  (value + 9223372036854775808) % 18446744073709551616 - 9223372036854775808

/-- `MAX_DATE_TIME_INTERNAL_FORMAT_VALUE`. -/
def maxInternalFormatValue : Int := 253402300799999999

/-- `MIN_DATE_TIME_INTERNAL_FORMAT_VALUE`. -/
def minInternalFormatValue : Int := -62167219200999999

/-- `DATE_TIME_ERROR_RETURN`. -/
def errorReturn : Int := maxInternalFormatValue + 1

/-- The test of a result against the range. -/
def validated (ret : Int) : Int :=
  if ret > maxInternalFormatValue ∨ ret < minInternalFormatValue then errorReturn else ret

/-- The end of the functions: the microseconds are appended and the result is tested. -/
def withMicro (tm : Tm) (micro : Int) : Int :=
  validated (toLong (addSignedMicroSeconds (utcMktime tm) micro))

/-- `ydboctoSubDateTimeC`. -/
def ydboctoSubDateTime (op1 op2 : Int) : Int :=
  let (seconds1, micro1) := removeMicroSeconds op1
  let (seconds2, micro2) := removeMicroSeconds op2
  let tm1 := gmtime seconds1
  let tm2 := gmtime seconds2
  let tm := { tm1 with
    hour := tm1.hour - tm2.hour, min := tm1.min - tm2.min, sec := tm1.sec - tm2.sec }
  let micro : Int := micro1 - micro2
  if micro < -1000000 then withMicro { tm with sec := tm.sec - 1 } (micro + 1000000)
  else withMicro tm micro

/-- `ydboctoAddDateTimeC`, where `op2` is an integer or a time. -/
def ydboctoAddDateTime (op1 op2 : Int) (isOp2Integer : Bool) : Int :=
  let (seconds1, micro1) := removeMicroSeconds op1
  let tm1 := gmtime seconds1
  if isOp2Integer then
    if 2147483647 < op2 ∨ -2147483648 > op2 then errorReturn
    else withMicro { tm1 with mday := toInt (tm1.mday + op2) } micro1
  else
    let (seconds2, micro2) := removeMicroSeconds op2
    let tm2 := gmtime seconds2
    let tm := { tm1 with
      hour := tm1.hour + tm2.hour, min := tm1.min + tm2.min, sec := tm1.sec + tm2.sec }
    let micro : Int := micro1 + micro2
    if 1000000 ≤ micro then withMicro { tm with sec := tm.sec + 1 } (micro - 1000000)
    else withMicro tm micro

/-- `ydboctoSubDateC`, where `op2` is an integer or a date. -/
def ydboctoSubDate (op1 op2 : Int) (isOp2Integer : Bool) : Int :=
  let (seconds1, micro1) := removeMicroSeconds op1
  if isOp2Integer then
    let tm1 := gmtime seconds1
    if 2147483647 < op2 ∨ -2147483648 > op2 then errorReturn
    else withMicro { tm1 with mday := toInt (tm1.mday - op2) } micro1
  else validated (((seconds1 - (removeMicroSeconds op2).1).tdiv 60).tdiv 60 |>.tdiv 24)

/-! ## Their parts -/

theorem utcMktime_gmtime (value : Int) : utcMktime (gmtime value) = value := by
  simp only [utcMktime, gmtime, dayNumber_civilDate]
  omega

theorem removeMicroSeconds_internalNumber (seconds : Int) {micro : Nat}
    (bounded : micro < 1000000) :
    removeMicroSeconds (internalNumber seconds micro) = (seconds, micro) := by
  rw [← addMicroSeconds_eq_internalNumber seconds micro bounded,
    removeMicroSeconds_addMicroSeconds seconds micro bounded]

/-! ## Moments -/

/-- A value in internal format: whole seconds of any sign, and microseconds that are added to
them. -/
structure Moment where
  seconds : Int
  micro : Nat
  micro_lt : micro < 1000000

/-- The seconds of the years 0 to 9999. -/
def SupportedSeconds (seconds : Int) : Prop :=
  -62167219200 ≤ seconds ∧ seconds ≤ 253402300799

instance (seconds : Int) : Decidable (SupportedSeconds seconds) :=
  inferInstanceAs (Decidable (_ ∧ _))

/-- A DATE or TIMESTAMP value. -/
structure Timestamp extends Moment where
  supported : SupportedSeconds seconds

namespace Moment

/-- The number of a moment. -/
def internal (moment : Moment) : Int :=
  internalNumber moment.seconds moment.micro

/-- The instant of a moment. -/
def instant (moment : Moment) : Int :=
  instantMicros moment.seconds moment.micro

/-- The time of the day of a moment. -/
def timeOfDay (moment : Moment) : Int :=
  instantMicros (moment.seconds % 86400) moment.micro

end Moment

/-- What has to be returned for an instant: its number, or the error when it is not supported. -/
def returned (instant : Int) : Int :=
  if SupportedSeconds (instant / 1000000) then
    internalNumber (instant / 1000000) (instant % 1000000).toNat
  else errorReturn

theorem toLong_of_fits {value : Int} (fits : value.natAbs < 9223372036854775808) :
    toLong value = value := by
  unfold toLong
  omega

theorem withMicro_eq {tm : Tm} {seconds micro : Int} (same : utcMktime tm = seconds)
    (near : seconds.natAbs < 9223372036854) (short : micro.natAbs < 1000000) :
    withMicro tm micro =
      validated (if seconds < 0 then seconds * 1000000 - micro else seconds * 1000000 + micro) := by
  rw [withMicro, same, addSignedMicroSeconds_eq _ short, toLong_of_fits]
  split <;> omega

/-- Appending microseconds that are not negative is right. -/
theorem validated_eq_returned (seconds : Int) {micro : Int} (notNegative : 0 ≤ micro)
    (short : micro < 1000000) :
    validated (if seconds < 0 then seconds * 1000000 - micro else seconds * 1000000 + micro) =
      returned (seconds * 1000000 + micro) := by
  have whole : (seconds * 1000000 + micro) / 1000000 = seconds := by omega
  have rest : ((seconds * 1000000 + micro) % 1000000).toNat = micro := by omega
  simp only [returned, internalNumber, rest, validated, SupportedSeconds,
    maxInternalFormatValue, minInternalFormatValue]
  split <;> split <;> split <;> omega

/-- The sum of a date or timestamp and a time is the instant that it has to be. -/
theorem ydboctoAddDateTime_eq_returned (date : Timestamp) (time : Moment) :
    ydboctoAddDateTime date.internal time.internal false =
      returned (date.instant + time.timeOfDay) := by
  obtain ⟨low, high⟩ := date.supported
  have dateShort := date.micro_lt
  have timeShort := time.micro_lt
  have whole := utcMktime_gmtime date.seconds
  have sum : date.instant + time.timeOfDay =
      (date.seconds + time.seconds % 86400) * 1000000 + (date.micro + time.micro) := by
    simp only [Moment.instant, Moment.timeOfDay, instantMicros]
    ring
  simp only [ydboctoAddDateTime, Moment.internal, removeMicroSeconds_internalNumber _ dateShort,
    removeMicroSeconds_internalNumber _ timeShort, Bool.false_eq_true, if_false, sum]
  simp only [utcMktime, gmtime] at whole
  split
  case isTrue carry =>
    refine (withMicro_eq (?_ : utcMktime _ = date.seconds + time.seconds % 86400 + 1)
      (by omega) (by omega)).trans ?_
    · simp only [utcMktime, gmtime]
      omega
    · rw [validated_eq_returned _ (by omega) (by omega)]
      ring_nf
  case isFalse noCarry =>
    refine (withMicro_eq (?_ : utcMktime _ = date.seconds + time.seconds % 86400)
      (by omega) (by omega)).trans ?_
    · simp only [utcMktime, gmtime]
      omega
    · exact validated_eq_returned _ (by omega) (by omega)

/-- The difference of a date or timestamp and a time is the instant that it has to be exactly when
no microseconds are borrowed, or the seconds are positive or below the range: no second is borrowed
with the microseconds, and behind negative seconds they count away from zero. -/
theorem ydboctoSubDateTime_eq_returned_iff (date : Timestamp) (time : Moment) :
    ydboctoSubDateTime date.internal time.internal = returned (date.instant - time.timeOfDay) ↔
      time.micro ≤ date.micro ∨ 0 < date.seconds - time.seconds % 86400 ∨
        date.seconds - time.seconds % 86400 < -62167219201 := by
  obtain ⟨low, high⟩ := date.supported
  have dateShort := date.micro_lt
  have timeShort := time.micro_lt
  have whole := utcMktime_gmtime date.seconds
  have difference : date.instant - time.timeOfDay =
      (date.seconds - time.seconds % 86400) * 1000000 + (date.micro - time.micro) := by
    simp only [Moment.instant, Moment.timeOfDay, instantMicros]
    ring
  have computed : ydboctoSubDateTime date.internal time.internal =
      validated (if date.seconds - time.seconds % 86400 < 0 then
          (date.seconds - time.seconds % 86400) * 1000000 - (date.micro - time.micro)
        else (date.seconds - time.seconds % 86400) * 1000000 + (date.micro - time.micro)) := by
    simp only [ydboctoSubDateTime, Moment.internal, removeMicroSeconds_internalNumber _ dateShort,
      removeMicroSeconds_internalNumber _ timeShort]
    rw [if_neg (by omega)]
    refine withMicro_eq ?_ (by omega) (by omega)
    simp only [utcMktime, gmtime] at whole ⊢
    omega
  rw [computed, difference]
  by_cases borrows : time.micro ≤ date.micro
  · rw [validated_eq_returned _ (by omega) (by omega)]
    exact iff_of_true rfl (.inl borrows)
  · simp only [returned, internalNumber, validated, SupportedSeconds, errorReturn,
      maxInternalFormatValue, minInternalFormatValue]
    omega

/-- `1970-01-01`. -/
def epoch : Timestamp :=
  ⟨⟨0, 0, by decide⟩, by decide⟩

/-- The TIME `00:00:00.5`, which is a moment of the last day of 1899. -/
def halfSecond : Moment :=
  ⟨-2209075200, 500000, by decide⟩

/-- Half a second before 1970 comes out as half a second after its beginning. -/
theorem epoch_sub_halfSecond :
    ydboctoSubDateTime epoch.internal halfSecond.internal = -500000 ∧
      returned (epoch.instant - halfSecond.timeOfDay) = -1500000 :=
  ⟨rfl, rfl⟩

/-! ## Dates and integers -/

/-- The days of the years 0 to 9999. -/
def SupportedDay (days : Int) : Prop :=
  -719528 ≤ days ∧ days ≤ 2932896

instance (days : Int) : Decidable (SupportedDay days) :=
  inferInstanceAs (Decidable (_ ∧ _))

/-- The internal format of a date. -/
def dateInternal (days : Int) : Int :=
  internalNumber (days * 86400) 0

/-- The laws of the sum of a date and an integer. -/
structure DateLaws (days number : Int) : Prop where
  sub_integer : SupportedDay (days + number) →
    ydboctoSubDate (ydboctoAddDateTime (dateInternal days) number true) number true =
      dateInternal days
  sub_date : SupportedDay (days + number) →
    ydboctoSubDate (ydboctoAddDateTime (dateInternal days) number true) (dateInternal days) false =
      number
  error_iff : ydboctoAddDateTime (dateInternal days) number true = errorReturn ↔
    ¬SupportedDay (days + number)

theorem dateInternal_eq (days : Int) : dateInternal days = days * 86400000000 := by
  unfold dateInternal internalNumber
  split <;> omega

theorem validated_dateInternal (days : Int) :
    validated (dateInternal days) = if SupportedDay days then dateInternal days else
      errorReturn := by
  simp only [dateInternal_eq, validated, SupportedDay, maxInternalFormatValue,
    minInternalFormatValue]
  split <;> split <;> omega

/-- The microseconds that are tested against the range when days are added to a date: the day of the
month wraps around as an `int`, the product as a `long`. -/
def shiftedMicros (days shift : Int) : Int :=
  toLong ((days + toInt ((civilDate days).mday + shift) - (civilDate days).mday) * 86400000000)

/-- Days are added to the day of the month. -/
theorem withMicro_shift (days shift : Int) :
    withMicro { gmtime (days * 86400) with
        mday := toInt ((gmtime (days * 86400)).mday + shift) } 0 =
      validated (shiftedMicros days shift) := by
  have same := dayNumber_civilDate days
  have whole : days * 86400 / 86400 = days := by omega
  rw [withMicro, addSignedMicroSeconds_eq _ (by decide), shiftedMicros]
  congr 2
  simp only [utcMktime, gmtime, CivilDate.dayNumber, whole] at same ⊢
  split <;> omega

/-- Nothing wraps around between two supported days. -/
theorem shiftedMicros_of_supported {days shift : Int} (supported : SupportedDay days)
    (sum : SupportedDay (days + shift)) :
    shiftedMicros days shift = dateInternal (days + shift) := by
  have range := civilDate_mday days
  simp only [SupportedDay] at supported sum
  have day : toInt ((civilDate days).mday + shift) = (civilDate days).mday + shift := by
    unfold toInt
    omega
  rw [shiftedMicros, day, toLong_of_fits (by omega), dateInternal_eq]
  ring

theorem removeMicroSeconds_dateInternal (days : Int) :
    removeMicroSeconds (dateInternal days) = (days * 86400, 0) :=
  removeMicroSeconds_internalNumber _ (by decide)

theorem ydboctoAddDateTime_integer {days number : Int} (low : -2147483648 ≤ number)
    (high : number ≤ 2147483647) : ydboctoAddDateTime (dateInternal days) number true =
      validated (shiftedMicros days number) := by
  rw [ydboctoAddDateTime, removeMicroSeconds_dateInternal]
  simp only [if_true]
  rw [if_neg (by omega)]
  exact withMicro_shift days number

/-- The sum of a supported day, if it is supported too, can be taken back in both ways. -/
theorem ydboctoSubDate_of_supported {days number : Int} (supported : SupportedDay days)
    (sum : SupportedDay (days + number)) :
    ydboctoSubDate (dateInternal (days + number)) number true = dateInternal days ∧
      ydboctoSubDate (dateInternal (days + number)) (dateInternal days) false = number := by
  have back : days + number + -number = days := by omega
  constructor
  · have shift := withMicro_shift (days + number) (-number)
    rw [shiftedMicros_of_supported sum (back.symm ▸ supported), back, validated_dateInternal,
      if_pos supported] at shift
    rw [ydboctoSubDate, removeMicroSeconds_dateInternal]
    simp only [SupportedDay] at supported sum
    simp only [if_true]
    rw [if_neg (by omega)]
    exact shift
  · have seconds : (days + number) * 86400 - days * 86400 = number * 24 * 60 * 60 := by ring
    rw [ydboctoSubDate, removeMicroSeconds_dateInternal, removeMicroSeconds_dateInternal]
    simp only [SupportedDay] at supported sum
    simp only [Bool.false_eq_true, if_false, seconds]
    rw [Int.mul_tdiv_cancel _ (by decide), Int.mul_tdiv_cancel _ (by decide),
      Int.mul_tdiv_cancel _ (by decide), validated]
    simp only [maxInternalFormatValue, minInternalFormatValue]
    omega

theorem validated_eq_errorReturn_iff {value : Int} : validated value = errorReturn ↔
    value < minInternalFormatValue ∨ maxInternalFormatValue < value := by
  simp only [validated, errorReturn]
  split <;> omega

/-- The laws hold for a supported day and an `int` exactly when the sum is supported, or when the
microseconds that are left of it after the overflow are out of the range as well. -/
theorem dateLaws_iff {days number : Int} (supported : SupportedDay days)
    (low : -2147483648 ≤ number) (high : number ≤ 2147483647) :
    DateLaws days number ↔ SupportedDay (days + number) ∨
      shiftedMicros days number < minInternalFormatValue ∨
        maxInternalFormatValue < shiftedMicros days number := by
  have sum := @ydboctoAddDateTime_integer days number low high
  have error : ydboctoAddDateTime (dateInternal days) number true = errorReturn ↔
      shiftedMicros days number < minInternalFormatValue ∨
        maxInternalFormatValue < shiftedMicros days number := by
    rw [sum, validated_eq_errorReturn_iff]
  constructor
  · intro laws
    by_cases inRange : SupportedDay (days + number)
    · exact .inl inRange
    · exact .inr (error.mp (laws.error_iff.mpr inRange))
  · intro right
    by_cases inRange : SupportedDay (days + number)
    · have unwrapped := shiftedMicros_of_supported supported inRange
      rw [unwrapped, validated_dateInternal, if_pos inRange] at sum
      obtain ⟨integer, date⟩ := ydboctoSubDate_of_supported supported inRange
      refine ⟨fun _ => by rw [sum, integer], fun _ => by rw [sum, date], ?_⟩
      rw [error, unwrapped, dateInternal_eq]
      simp only [SupportedDay] at inRange
      simp only [SupportedDay, minInternalFormatValue, maxInternalFormatValue]
      omega
    · exact ⟨fun sum => absurd sum inRange, fun sum => absurd sum inRange,
        iff_of_true (error.mpr (right.resolve_left inRange)) inRange⟩

/-- 31 December 1969 is the day before 1 January 1970, and the largest `int` is out of the range in
spite of the overflow. -/
theorem dateLaws_iff_zero : DateLaws 0 (-1) ∧ DateLaws 0 2147483647 :=
  ⟨(dateLaws_iff (by decide) (by decide) (by decide)).mpr (by decide),
    (dateLaws_iff (by decide) (by decide) (by decide)).mpr (by decide)⟩

/-- A sum that is far above the range wraps around into it. -/
theorem add_wraps_into_range : ¬DateLaws 0 213503982 := by
  intro laws
  exact absurd (laws.error_iff.mpr (by decide)) (by decide)

end Octo.DateTime
