import Octo.Foundation.Memory

/-!
# Numbers and texts in bytes

Bytes are read as a number with or without a sign, the first byte first, and a number is printed in
decimal digits. A text in memory ends at its null terminator. The bytes of a number never are the
digits that print it.
-/
namespace Octo.Foundation

open List Option

/-! ## Numbers -/

/-- Bytes as a number without a sign. -/
def bigEndian (bytes : List UInt8) : Nat :=
  bytes.foldl (fun number byte => number * 256 + byte.toNat) 0

/-- Bytes as a number in two's complement. -/
def twosComplement (bytes : List UInt8) : Int :=
  if 2 * bigEndian bytes < 256 ^ bytes.length then bigEndian bytes
  else bigEndian bytes - 256 ^ bytes.length

/-- The letters of a number in decimal digits. -/
def decimalLetters (number : Int) : List Char :=
  if number < 0 then '-' :: Nat.toDigits 10 number.natAbs else Nat.toDigits 10 number.natAbs

/-- A number in decimal digits. -/
def decimal (number : Int) : List UInt8 :=
  (decimalLetters number).map fun letter => UInt8.ofNat letter.toNat

theorem foldl_bigEndian (number : Nat) (bytes : List UInt8) :
    bytes.foldl (fun number byte => number * 256 + byte.toNat) number =
      number * 256 ^ bytes.length + bigEndian bytes := by
  induction bytes generalizing number with
  | nil => simp [bigEndian]
  | cons byte bytes ih =>
    rw [bigEndian, foldl_cons, foldl_cons, ih, ih, length_cons, Nat.pow_succ,
      Nat.zero_add, Nat.add_mul, Nat.mul_assoc, Nat.mul_comm 256, Nat.add_assoc]

theorem bigEndian_cons (byte : UInt8) (bytes : List UInt8) :
    bigEndian (byte :: bytes) = byte.toNat * 256 ^ bytes.length + bigEndian bytes := by
  rw [bigEndian, foldl_cons, foldl_bigEndian, Nat.zero_add]

theorem bigEndian_lt (bytes : List UInt8) : bigEndian bytes < 256 ^ bytes.length := by
  induction bytes with
  | nil => decide
  | cons byte bytes ih =>
    have := byte.toNat_lt
    calc bigEndian (byte :: bytes)
        = byte.toNat * 256 ^ bytes.length + bigEndian bytes := bigEndian_cons byte bytes
      _ < (byte.toNat + 1) * 256 ^ bytes.length := by rw [Nat.add_mul]; omega
      _ ≤ 256 * 256 ^ bytes.length := Nat.mul_le_mul_right _ (by omega)
      _ = 256 ^ (byte :: bytes).length := by rw [length_cons, Nat.pow_succ, Nat.mul_comm]

variable {byte : UInt8} {bytes : List UInt8} {number : Int}

/-- The sign is the highest bit of the first byte. -/
theorem twosComplement_cons :
    twosComplement (byte :: bytes) =
      if byte.toNat < 128 then (bigEndian (byte :: bytes) : Int)
      else bigEndian (byte :: bytes) - 256 ^ (byte :: bytes).length := by
  have small := bigEndian_lt bytes
  have whole : (256 : Nat) ^ (byte :: bytes).length = 256 * 256 ^ bytes.length := by
    rw [length_cons, Nat.pow_succ, Nat.mul_comm]
  have sign : 2 * bigEndian (byte :: bytes) < 256 ^ (byte :: bytes).length ↔ byte.toNat < 128 := by
    rw [bigEndian_cons]
    constructor
    · intro below
      by_contra high
      have := Nat.mul_le_mul_right (256 ^ bytes.length) (Nat.le_of_not_lt high)
      omega
    · intro low
      have := Nat.mul_le_mul_right (256 ^ bytes.length) (Nat.succ_le_of_lt low)
      rw [Nat.succ_mul] at this
      omega
  rw [twosComplement]
  simp only [sign]

theorem twosComplement_neg (high : ¬ byte.toNat < 128) : twosComplement (byte :: bytes) < 0 := by
  have := bigEndian_lt (byte :: bytes)
  rw [twosComplement_cons, if_neg high]
  have : (bigEndian (byte :: bytes) : Int) < ((256 ^ (byte :: bytes).length : Nat) : Int) :=
    Int.ofNat_lt.2 this
  exact Int.sub_neg_of_lt this

/-! ## Decimal digits -/

theorem length_decimal_natCast (number : Nat) :
    (decimal number).length = (Nat.toDigits 10 number).length := by
  rw [decimal, decimalLetters, if_neg (by omega), length_map, Int.natAbs_natCast]

theorem isDigit_bounds {letter : Char} (digit : letter.isDigit = true) :
    48 ≤ letter.toNat ∧ letter.toNat ≤ 57 := by
  simp only [Char.isDigit, Bool.and_eq_true, decide_eq_true_eq] at digit
  exact ⟨digit.1, digit.2⟩

theorem mem_decimalLetters {letter : Char} (member : letter ∈ decimalLetters number) :
    45 ≤ letter.toNat ∧ letter.toNat ≤ 57 := by
  have digits (member : letter ∈ Nat.toDigits 10 number.natAbs) :
      45 ≤ letter.toNat ∧ letter.toNat ≤ 57 := by
    have := isDigit_bounds (Nat.isDigit_of_mem_toDigits (by decide) (by decide) member)
    omega
  rw [decimalLetters] at member
  split at member
  · obtain rfl | member := mem_cons.1 member
    · decide
    · exact digits member
  · exact digits member

theorem mem_decimal (member : byte ∈ decimal number) : 45 ≤ byte.toNat ∧ byte.toNat ≤ 57 := by
  obtain ⟨letter, inside, rfl⟩ := mem_map.1 member
  have bounds := mem_decimalLetters inside
  rwa [toNat_ofNat_of_lt (by omega)]

theorem decimal_ne_nil (number : Int) : decimal number ≠ [] := by
  rw [decimal, decimalLetters, Ne, map_eq_nil_iff]
  split
  · exact cons_ne_nil _ _
  · exact Nat.toDigits_ne_nil

/-- A number with a sign is not printed like one without. -/
theorem decimal_neg_ne {negative : Int} (below : negative < 0) (above : 0 ≤ number) :
    decimal negative ≠ decimal number := by
  intro same
  rw [decimal, decimal, decimalLetters, decimalLetters, if_pos below, if_neg (by omega),
    map_cons] at same
  obtain ⟨letter, member, isSign⟩ := mem_map.1 (same ▸ mem_cons_self)
  have bounds :=
    isDigit_bounds (Nat.isDigit_of_mem_toDigits (by decide) (by decide) member)
  have := congrArg UInt8.toNat isSign
  simp at this
  omega

/-- Bytes are not the decimal digits of the number that they are: as digits they are a number that
needs more digits than there are bytes. -/
theorem decimal_ne_bytes (isNumber : number = bigEndian bytes ∨ number = twosComplement bytes) :
    decimal number ≠ bytes := by
  intro same
  cases bytes with
  | nil => exact decimal_ne_nil number same
  | cons byte bytes =>
    have bounds := mem_decimal (same ▸ mem_cons_self : byte ∈ decimal number)
    obtain rfl : number = bigEndian (byte :: bytes) := by
      rw [twosComplement_cons, if_pos (by omega)] at isNumber
      exact isNumber.elim id id
    have fits : (Nat.toDigits 10 (bigEndian (byte :: bytes))).length ≤ (byte :: bytes).length := by
      exact Nat.le_of_eq ((length_decimal_natCast _).symm.trans (congrArg List.length same))
    have small := (Nat.length_toDigits_le_iff (by decide) (Nat.succ_pos _)).1 fits
    have large : 10 ^ (byte :: bytes).length ≤ bigEndian (byte :: bytes) :=
      calc 10 ^ (byte :: bytes).length
          = 10 * 10 ^ bytes.length := by rw [length_cons, Nat.pow_succ, Nat.mul_comm]
        _ ≤ byte.toNat * 256 ^ bytes.length :=
          Nat.mul_le_mul (by omega) (Nat.pow_le_pow_left (by decide) _)
        _ ≤ bigEndian (byte :: bytes) := by rw [bigEndian_cons]; omega
    exact absurd small (Nat.not_lt.2 large)

namespace Memory

variable {memory : Memory}

/-! ## Texts in memory -/

/-- So many bytes from an address on. -/
def bytesAt (memory : Memory) : Int → Nat → List UInt8
  | _, 0 => []
  | address, count + 1 => memory address :: bytesAt memory (address + 1) count

variable {address : Int} {text : List UInt8}

theorem Holds.bytesAt_eq (holds : memory.Holds address bytes) :
    memory.bytesAt address bytes.length = bytes := by
  induction bytes generalizing address with
  | nil => rfl
  | cons byte bytes ih =>
    rw [length_cons, bytesAt, holds.1, ih holds.2]

/-- A text that ends at a null terminator. -/
structure Spells (memory : Memory) (address : Int) (text : List UInt8) : Prop where
  holds : memory.Holds address text
  noNull : 0 ∉ text
  terminator : memory (address + text.length) = 0

/-- The text from an address on, if its null terminator is among so many bytes. -/
def cString (memory : Memory) : Nat → Int → Option (List UInt8)
  | 0, _ => none
  | count + 1, address =>
    if memory address = 0 then some []
    else (cString memory count (address + 1)).map fun text => memory address :: text

theorem spells_nil : memory.Spells address [] ↔ memory address = 0 := by
  constructor
  · intro spells
    simpa using spells.terminator
  · intro terminator
    exact ⟨holds_nil address, not_mem_nil, by simpa using terminator⟩

theorem spells_cons :
    memory.Spells address (byte :: text) ↔
      memory address = byte ∧ byte ≠ 0 ∧ memory.Spells (address + 1) text := by
  have behind : address + ((byte :: text).length : Int) = address + 1 + text.length := by
    rw [length_cons]
    omega
  constructor
  · rintro ⟨holds, noNull, terminator⟩
    rw [mem_cons, not_or] at noNull
    exact ⟨holds.1, Ne.symm noNull.1, holds.2, noNull.2, behind ▸ terminator⟩
  · rintro ⟨first, nonzero, holds, noNull, terminator⟩
    refine ⟨⟨first, holds⟩, ?_, behind.symm ▸ terminator⟩
    rw [mem_cons, not_or]
    exact ⟨Ne.symm nonzero, noNull⟩

theorem cString_eq_some_iff {count : Nat} :
    memory.cString count address = some text ↔
      memory.Spells address text ∧ text.length < count := by
  induction count generalizing address text with
  | zero => simp [cString]
  | succ count ih =>
    by_cases terminator : memory address = 0
    · rw [cString, if_pos terminator, some.injEq]
      cases text with
      | nil => simp [spells_nil, terminator]
      | cons byte text =>
        refine iff_of_false (cons_ne_nil _ _).symm fun spells => ?_
        obtain ⟨first, nonzero, -⟩ := spells_cons.1 spells.1
        exact nonzero (first.symm.trans terminator)
    · rw [cString, if_neg terminator]
      cases text with
      | nil => simp [spells_nil, terminator]
      | cons byte text =>
        rw [spells_cons, length_cons, Nat.add_lt_add_iff_right]
        constructor
        · intro read
          obtain ⟨rest, found, same⟩ := map_eq_some_iff.1 read
          obtain ⟨rfl, rfl⟩ := cons.inj same
          exact ⟨⟨rfl, terminator, (ih.1 found).1⟩, (ih.1 found).2⟩
        · rintro ⟨⟨rfl, -, spells⟩, short⟩
          rw [ih.2 ⟨spells, short⟩, map_some]

/-- A text does not go beyond a null byte. -/
theorem Spells.length_le {last : Int} (spells : memory.Spells address text)
    (before : address ≤ last) (zero : memory last = 0) : address + text.length ≤ last := by
  induction text generalizing address with
  | nil => simpa using before
  | cons byte text ih =>
    obtain ⟨first, nonzero, rest⟩ := spells_cons.1 spells
    have notLast : address ≠ last := by
      rintro rfl
      exact nonzero (first.symm.trans zero)
    have := ih rest (by omega)
    rw [length_cons]
    omega

/-- When a null byte is known to stand at some place, the text up to it is always found. -/
theorem cString_of_terminated {last : Int} (before : address ≤ last) (zero : memory last = 0) :
    memory.cString (last - address + 1).toNat address = some text ↔ memory.Spells address text := by
  rw [cString_eq_some_iff]
  refine and_iff_left_of_imp fun spells => ?_
  have := spells.length_le before zero
  omega

/-- Bytes are a text when there is no null byte among them and one behind them. -/
theorem Holds.spells_iff (holds : memory.Holds address bytes) :
    memory.Spells address bytes ↔ 0 ∉ bytes ∧ memory (address + bytes.length) = 0 :=
  ⟨fun spells => ⟨spells.noNull, spells.terminator⟩, fun text => ⟨holds, text.1, text.2⟩⟩

end Memory

end Octo.Foundation
