import Mathlib

/-!
# Time zones of texts

`Text2UnixTime` completes an offset of hours, and `ydboctoText2InternalFormatC` reads the hours and
minutes by `%z` of `strptime` and the seconds itself, with the sign of what `strptime` returned. The
local time is the result of `utc_mktime` on the other fields.
-/
namespace Octo.DateTime

/-! ## Reading an offset -/

/-- The digits of `%z`: their number and value, and the text behind them. A colon is passed between
hours and minutes. -/
def zoneDigits : Nat → Nat → Nat → List Char → Nat × Nat × List Char
  | 0, n, val, text => (n, val, text)
  | _ + 1, n, val, [] => (n, val, [])
  | left + 1, n, val, c :: text =>
    if c.isDigit then
      let behind :=
        match n, text with
        | 1, ':' :: d :: rest => if d.isDigit then d :: rest else text
        | _, _ => text
      zoneDigits left (n + 1) (val * 10 + (c.toNat - 48)) behind
    else (n, val, c :: text)

/-- `%z` of `strptime`: `tm_gmtoff`, and the text behind it. -/
def strptimeZone : List Char → Option (Int × List Char)
  | [] => none
  | sign :: text =>
    let (n, val, rest) := zoneDigits 4 0 0 text
    let val := if n = 2 then val * 100 else val
    if sign ≠ '+' ∧ sign ≠ '-' ∨ n ≠ 2 ∧ n ≠ 4 ∨ 60 ≤ val % 100 then none
    else
      let gmtoff : Int := ↑(val / 100 * 3600 + val % 100 * 60)
      some (if sign = '-' then -gmtoff else gmtoff, rest)

/-- `Text2UnixTime`: two digits of an offset are completed. -/
def completeZone (zone : List Char) : List Char :=
  if zone.length = 3 then zone ++ ":00".toList else zone

/-- The time in UTC that `ydboctoText2InternalFormatC` computes. -/
def zonedTime (localTime : Int) (zone : List Char) : Option Int :=
  match strptimeZone (completeZone zone) with
  | some (gmtoff, []) => some (localTime - gmtoff)
  | some (gmtoff, ':' :: digits) =>
    let seconds : Int := Nat.ofDigitChars 10 (digits.takeWhile Char.isDigit) 0
    some (localTime - (gmtoff + if gmtoff < 0 then -seconds else seconds))
  | _ => none

/-! ## What an offset denotes -/

/-- An offset `HH`, `HH:MM` or `HH:MM:SS` with its sign. -/
structure Offset where
  negative : Bool
  hours : Fin 100
  minutes : Option (Fin 60 × Option (Fin 60))

namespace Offset

/-- Two digits. -/
def twoDigits (number : Nat) : List Char :=
  [Nat.digitChar (number / 10), Nat.digitChar (number % 10)]

/-- The offset as it is written. -/
def text (offset : Offset) : List Char :=
  (if offset.negative then '-' else '+') :: (twoDigits offset.hours ++
    match offset.minutes with
    | none => []
    | some (minutes, none) => ':' :: twoDigits minutes
    | some (minutes, some seconds) => ':' :: (twoDigits minutes ++ ':' :: twoDigits seconds))

/-- The seconds of an offset without its sign. -/
def magnitude (offset : Offset) : Int :=
  offset.hours * 3600 +
    match offset.minutes with
    | none => 0
    | some (minutes, none) => minutes * 60
    | some (minutes, some seconds) => minutes * 60 + seconds

/-- All parts of an offset have its sign. -/
def toSeconds (offset : Offset) : Int :=
  if offset.negative then -offset.magnitude else offset.magnitude

theorem digit_spec : ∀ digit : Fin 10, (Nat.digitChar digit).isDigit = true ∧
    (Nat.digitChar digit).toNat - 48 = digit := by
  decide

theorem strptimeZone_twoDigits (negative : Bool) (hours : Fin 100) (minutes : Fin 60)
    (rest : List Char) :
    strptimeZone ((if negative then '-' else '+') ::
      (twoDigits hours ++ ':' :: (twoDigits minutes ++ rest))) =
      some (if negative then -(hours * 3600 + minutes * 60 : Int) else hours * 3600 + minutes * 60,
        rest) := by
  have digit (number : Nat) (small : number < 10) := digit_spec ⟨number, small⟩
  have hourTens := digit (hours / 10) (by omega)
  have hourOnes := digit (hours % 10) (by omega)
  have tens := digit (minutes / 10) (by omega)
  have ones := digit (minutes % 10) (by omega)
  simp [strptimeZone, twoDigits, zoneDigits, hourTens, hourOnes, tens, ones]
  split <;> omega

/-- The seconds of an offset have its sign, unless the offset is negative and its hours and minutes
are zero: the sign is then lost. -/
theorem zonedTime_text_iff (localTime : Int) (offset : Offset) :
    zonedTime localTime offset.text = some (localTime - offset.toSeconds) ↔
      ¬(offset.negative ∧ offset.hours = 0 ∧
        ∃ seconds ≠ 0, offset.minutes = some (0, some seconds)) := by
  obtain ⟨negative, hours, _ | ⟨minutes, _ | seconds⟩⟩ := offset
  · have read : strptimeZone (completeZone (text ⟨negative, hours, none⟩)) = _ :=
      strptimeZone_twoDigits negative hours 0 []
    simp [zonedTime, read, toSeconds, magnitude]
  · have read : strptimeZone (completeZone (text ⟨negative, hours, some (minutes, none)⟩)) = _ :=
      strptimeZone_twoDigits negative hours minutes []
    simp [zonedTime, read, toSeconds, magnitude]
  · have read :
        strptimeZone (completeZone (text ⟨negative, hours, some (minutes, some seconds)⟩)) = _ :=
      strptimeZone_twoDigits negative hours minutes (':' :: twoDigits seconds)
    have value : ∀ number : Fin 60,
        Nat.ofDigitChars 10 ((twoDigits number).takeWhile Char.isDigit) 0 = number := by
      decide
    simp only [zonedTime, read, value, toSeconds, magnitude]
    cases negative
    · simp
      omega
    · simp
      omega

/-- An offset of half a minute to the west is read as one to the east. -/
theorem zonedTime_westOfGreenwich :
    zonedTime 0 "-00:00:30".toList = some (-30) ∧
      (⟨true, 0, some (0, some 30)⟩ : Offset).text = "-00:00:30".toList ∧
      (⟨true, 0, some (0, some 30)⟩ : Offset).toSeconds = -30 := by
  decide

end Offset

end Octo.DateTime
