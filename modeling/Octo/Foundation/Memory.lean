import Mathlib

/-!
# Bytes in memory

A memory is a byte at every address, and an address can lie before or behind the bytes that a
program knows. `Holds` says which bytes stand from an address on. Integers of two and four bytes are
read in network order, with a sign, and a half word can be turned round in its place.
-/
namespace Octo.Foundation

open UInt8

variable {first second third fourth : UInt8} {high low : UInt8} {byte : UInt8}

/-! ## Integers in network order -/

/-- Two bytes as an integer with a sign, the high byte first. -/
def int16 (high low : UInt8) : Int :=
  if high.toNat * 256 + low.toNat < 32768 then high.toNat * 256 + low.toNat
  else high.toNat * 256 + low.toNat - 65536

/-- Four bytes as an integer with a sign, the highest byte first. -/
def int32 (first second third fourth : UInt8) : Int :=
  if first.toNat < 128 then
    first.toNat * 16777216 + second.toNat * 65536 + third.toNat * 256 + fourth.toNat
  else
    first.toNat * 16777216 + second.toNat * 65536 + third.toNat * 256 + fourth.toNat - 4294967296

/-- A number below 65536 in two bytes. -/
def bytes16 (number : Nat) : List UInt8 :=
  [UInt8.ofNat (number / 256), UInt8.ofNat (number % 256)]

/-- A number below 4294967296 in four bytes. -/
def bytes32 (number : Nat) : List UInt8 :=
  [UInt8.ofNat (number / 16777216), UInt8.ofNat (number / 65536 % 256),
    UInt8.ofNat (number / 256 % 256), UInt8.ofNat (number % 256)]

theorem toNat_ofNat_of_lt {code : Nat} (byte : code < 256) : (ofNat code).toNat = code :=
  toNat_ofNat_of_lt' byte

theorem ofNat_of_toNat {code : Nat} (same : code = byte.toNat) :
    UInt8.ofNat code = byte := by
  rw [same, UInt8.ofNat_toNat]

theorem int16_lt (high low : UInt8) : int16 high low < 32768 := by
  have := high.toNat_lt
  have := low.toNat_lt
  unfold int16
  split <;> omega

variable {number : Nat}

theorem int16_bytes (small : number < 32768) :
    int16 (ofNat (number / 256)) (ofNat (number % 256)) = number := by
  rw [int16, toNat_ofNat_of_lt (by omega), toNat_ofNat_of_lt (by omega)]
  split <;> omega

theorem bytes16_of_int16 (read : int16 high low = number) : bytes16 number = [high, low] := by
  have := high.toNat_lt
  have := low.toNat_lt
  unfold int16 at read
  rw [bytes16, ofNat_of_toNat (show number / 256 = high.toNat by omega),
    ofNat_of_toNat (show number % 256 = low.toNat by omega)]

theorem int16_neg_of_high (sign : 128 ≤ high.toNat) : int16 high low < 0 := by
  have := high.toNat_lt
  have := low.toNat_lt
  unfold int16
  split <;> omega

theorem int32_lt (first second third fourth : UInt8) :
    int32 first second third fourth < 2147483648 := by
  have := first.toNat_lt
  have := second.toNat_lt
  have := third.toNat_lt
  have := fourth.toNat_lt
  unfold int32
  split <;> omega

theorem int32_bytes (small : number < 2147483648) :
    int32 (ofNat (number / 16777216)) (ofNat (number / 65536 % 256))
      (ofNat (number / 256 % 256)) (ofNat (number % 256)) = number := by
  rw [int32, toNat_ofNat_of_lt (by omega), toNat_ofNat_of_lt (by omega),
    toNat_ofNat_of_lt (by omega), toNat_ofNat_of_lt (by omega)]
  split <;> omega

theorem bytes32_of_int32 (read : int32 first second third fourth = number) :
    bytes32 number = [first, second, third, fourth] := by
  have := first.toNat_lt
  have := second.toNat_lt
  have := third.toNat_lt
  have := fourth.toNat_lt
  unfold int32 at read
  rw [bytes32, ofNat_of_toNat (show number / 16777216 = first.toNat by omega),
    ofNat_of_toNat (show number / 65536 % 256 = second.toNat by omega),
    ofNat_of_toNat (show number / 256 % 256 = third.toNat by omega),
    ofNat_of_toNat (show number % 256 = fourth.toNat by omega)]

theorem int32_neg_of_first (sign : 128 ≤ first.toNat) : int32 first second third fourth < 0 := by
  have := first.toNat_lt
  have := second.toNat_lt
  have := third.toNat_lt
  have := fourth.toNat_lt
  unfold int32
  split <;> omega

/-! ## Memory -/

/-- A byte at every address. -/
abbrev Memory : Type :=
  Int → UInt8

namespace Memory

variable {memory other : Memory}

/-- The bytes from an address on. -/
def Holds (memory : Memory) : Int → List UInt8 → Prop
  | _, [] => True
  | address, byte :: bytes => memory address = byte ∧ Holds memory (address + 1) bytes

@[simp] theorem holds_nil (address : Int) : memory.Holds address [] :=
  trivial

variable {address : Int} {bytes : List UInt8}

@[simp] theorem holds_cons :
    memory.Holds address (byte :: bytes) ↔
      memory address = byte ∧ memory.Holds (address + 1) bytes :=
  Iff.rfl

theorem holds_append {first second : List UInt8} :
    memory.Holds address (first ++ second) ↔
      memory.Holds address first ∧ memory.Holds (address + first.length) second := by
  induction first generalizing address with
  | nil => simp
  | cons byte first ih =>
    rw [List.cons_append, holds_cons, holds_cons, ih, List.length_cons, and_assoc]
    push_cast
    rw [show address + 1 + (first.length : Int) = address + (first.length + 1) by omega]

theorem holds_of_getElem?
    (each : ∀ (index : Nat) byte, bytes[index]? = some byte → memory (address + index) = byte) :
    memory.Holds address bytes := by
  induction bytes generalizing address with
  | nil => exact holds_nil address
  | cons byte bytes ih =>
    refine ⟨by simpa using each 0 byte rfl, ih fun index other found => ?_⟩
    have := each (index + 1) other (by simpa using found)
    rwa [Int.natCast_add, show address + ((index : Int) + (1 : Nat)) = address + 1 + index by omega]
      at this

theorem Holds.agree (holds : memory.Holds address bytes)
    (same : ∀ position, address ≤ position → position < address + bytes.length →
      other position = memory position) :
    other.Holds address bytes := by
  induction bytes generalizing address with
  | nil => exact holds_nil address
  | cons byte bytes ih =>
    rw [List.length_cons] at same
    refine ⟨(same address (by omega) (by omega)).trans holds.1, ih holds.2 ?_⟩
    intro position above below
    exact same position (by omega) (by push_cast; omega)

/-- Two bytes in network order. -/
def int16At (memory : Memory) (address : Int) : Int :=
  int16 (memory address) (memory (address + 1))

/-- Four bytes in network order. -/
def int32At (memory : Memory) (address : Int) : Int :=
  int32 (memory address) (memory (address + 1)) (memory (address + 2)) (memory (address + 3))

/-- Two bytes in the order of the host, the low byte first. -/
def native16At (memory : Memory) (address : Int) : Int :=
  int16 (memory (address + 1)) (memory address)

/-- Two bytes turned round in their place. -/
def swap16 (memory : Memory) (address : Int) : Memory :=
  fun position =>
    if position = address then memory (address + 1)
    else if position = address + 1 then memory address
    else memory position

variable {position : Int} {rest : List UInt8}

theorem swap16_of_ne (outside : position < address ∨ address + 2 ≤ position) :
    memory.swap16 address position = memory position := by
  rw [swap16, if_neg (by omega), if_neg (by omega)]

@[simp] theorem native16At_swap16 (address : Int) :
    (memory.swap16 address).native16At address = memory.int16At address := by
  rw [native16At, int16At, swap16, if_neg (by omega), if_pos rfl, swap16, if_pos rfl]

theorem native16At_agree (first : other address = memory address)
    (second : other (address + 1) = memory (address + 1)) :
    other.native16At address = memory.native16At address := by
  rw [native16At, native16At, first, second]

theorem int16At_of_holds (holds : memory.Holds address (high :: low :: rest)) :
    memory.int16At address = int16 high low := by
  obtain ⟨first, second, -⟩ := holds
  rw [int16At, first, second]

theorem int32At_of_holds
    (holds : memory.Holds address (first :: second :: third :: fourth :: rest)) :
    memory.int32At address = int32 first second third fourth := by
  obtain ⟨one, two, three, four, -⟩ := holds
  rw [int32At, one, two, show address + 2 = address + 1 + 1 by omega, three,
    show address + 3 = address + 1 + 1 + 1 by omega, four]

theorem eq_of_holds_four (holds : memory.Holds address (byte :: byte :: byte :: byte :: rest))
    (above : address ≤ position) (below : position < address + 4) : memory position = byte := by
  obtain ⟨one, two, three, four, -⟩ := holds
  obtain rfl | rfl | rfl | rfl : position = address ∨ position = address + 1 ∨
      position = address + 1 + 1 ∨ position = address + 1 + 1 + 1 := by omega
  exacts [one, two, three, four]

end Memory

end Octo.Foundation
