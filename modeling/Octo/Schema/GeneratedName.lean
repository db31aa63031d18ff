import Mathlib

/-!
# Generated names

`generate_name_type` makes the names of routines, functions and globals: a prefix that tells what is
named, and a hash of 128 bits that `ydb_hash_to_string` writes with 62 letters and digits. The two
halves of the hash take turns. Eleven digits of each half are written, which is just enough for 64
bits.
-/
namespace Octo.Schema

open List

/-- `NameType`. -/
inductive NameType where
  | crossReference
  | outputPlan
  | functionHash
  | tableGlobal
  | uniqueGlobal
deriving DecidableEq

/-- `ydb_uint16`. -/
@[ext]
structure Hash128 where
  one : UInt64
  two : UInt64
deriving DecidableEq

/-- `MAX_ROUTINE_LEN`, the length of an M identifier. -/
def maxRoutineLen : Nat :=
  31

/-- What is put before the prefix. -/
def NameType.caret : NameType → List Char
  | .crossReference | .outputPlan | .functionHash => []
  | .tableGlobal | .uniqueGlobal => ['^']

/-- `XREF_PLAN_NAME_PREFIX` and so on. -/
def NameType.routinePrefix : NameType → List Char
  | .crossReference => "%ydboctoX".toList
  | .outputPlan => "%ydboctoP".toList
  | .functionHash => "%ydboctoF".toList
  | .tableGlobal => "%ydboctoD".toList
  | .uniqueGlobal => "%ydboctoU".toList

/-- The size of the buffer that the caller has to give. -/
def NameType.retNameLen : NameType → Nat
  | .crossReference | .outputPlan | .functionHash => maxRoutineLen + 1
  | .tableGlobal | .uniqueGlobal => maxRoutineLen + 2

/-- `base62_chars[next_char]`. -/
def base62Char (nextChar : Nat) : Char :=
  "0123456789ABCDEFGHIJKLMNOPQRSTUVWXYZabcdefghijklmnopqrstuvwxyz".toList.getD nextChar '0'

/-- `ydb_hash_to_string`. Each turn of the loop writes two characters, also if only one is left. -/
def ydbHashToString : Nat → Nat → Nat → List Char
  | 0, _, _ => []
  | 1, hashone, hashtwo => [base62Char (hashone % 62), base62Char (hashtwo % 62)]
  | bufLen + 2, hashone, hashtwo =>
    base62Char (hashone % 62) :: base62Char (hashtwo % 62) ::
      ydbHashToString bufLen (hashone / 62) (hashtwo / 62)

/-- `generate_name_type`: the bytes that are written into the buffer. There are none if an assertion
about its size fails or `hash_str` is too small. -/
def generateNameType (type : NameType) (hash : Hash128) (retNameLen : Nat) : Option (List Char) :=
  if retNameLen = type.retNameLen then
    let start := type.caret ++ type.routinePrefix
    let hashLen := retNameLen - start.length - 1
    let hashStr := ydbHashToString hashLen hash.one.toNat hash.two.toNat
    if hashStr.length ≤ maxRoutineLen then some (start ++ hashStr.take hashLen ++ [Char.ofNat 0])
    else none
  else none

theorem base62Char_inj : ∀ first < 62, ∀ second < 62,
    base62Char first = base62Char second → first = second := by
  decide +kernel

theorem isAlphanum_base62Char : ∀ nextChar < 62, (base62Char nextChar).isAlphanum = true := by
  decide +kernel

theorem length_ydbHashToString (pairs one two : Nat) :
    (ydbHashToString (2 * pairs) one two).length = 2 * pairs := by
  induction pairs generalizing one two with
  | zero => rfl
  | succ pairs ih =>
    rw [Nat.mul_succ, ydbHashToString, length_cons, length_cons, ih]

theorem isAlphanum_of_mem_ydbHashToString (pairs : Nat) {one two : Nat} :
    ∀ letter ∈ ydbHashToString (2 * pairs) one two, letter.isAlphanum = true := by
  induction pairs generalizing one two with
  | zero => exact fun _ member => absurd member not_mem_nil
  | succ pairs ih =>
    rw [Nat.mul_succ, ydbHashToString, forall_mem_cons, forall_mem_cons]
    exact ⟨isAlphanum_base62Char _ (by omega), isAlphanum_base62Char _ (by omega), ih⟩

/-- Halves that have no more digits than are written can be told apart. -/
theorem ydbHashToString_inj (pairs : Nat) {one two otherOne otherTwo : Nat}
    (oneLt : one < 62 ^ pairs) (twoLt : two < 62 ^ pairs) (otherOneLt : otherOne < 62 ^ pairs)
    (otherTwoLt : otherTwo < 62 ^ pairs)
    (same : ydbHashToString (2 * pairs) one two = ydbHashToString (2 * pairs) otherOne otherTwo) :
    one = otherOne ∧ two = otherTwo := by
  induction pairs generalizing one two otherOne otherTwo with
  | zero => omega
  | succ pairs ih =>
    rw [Nat.mul_succ, ydbHashToString, ydbHashToString] at same
    obtain ⟨sameOne, same⟩ := cons.inj same
    obtain ⟨sameTwo, same⟩ := cons.inj same
    have lastOne := base62Char_inj _ (by omega) _ (by omega) sameOne
    have lastTwo := base62Char_inj _ (by omega) _ (by omega) sameTwo
    obtain ⟨restOne, restTwo⟩ := ih (by omega) (by omega) (by omega) (by omega) same
    omega

/-- Whatever is named, eleven digits of each half are written. -/
theorem generateNameType_eq (type : NameType) (hash : Hash128) :
    generateNameType type hash type.retNameLen = some (type.caret ++ (type.routinePrefix ++
      ydbHashToString (2 * 11) hash.one.toNat hash.two.toNat) ++ [Char.ofNat 0]) := by
  have hashLen : type.retNameLen - (type.caret ++ type.routinePrefix).length - 1 = 2 * 11 := by
    cases type <;> decide +kernel
  have length := length_ydbHashToString 11 hash.one.toNat hash.two.toNat
  rw [generateNameType, if_pos rfl]
  simp only [hashLen, length, take_of_length_le (Nat.le_of_eq length), append_assoc]
  rfl

/-- A generated name fills its buffer. Without a caret it is an M identifier of the full length: a
prefix, then letters and digits. It tells what is named and by which hash. -/
theorem generateNameType_spec :
    (∀ type hash, ∃ digits : List Char,
      generateNameType type hash type.retNameLen =
        some (type.caret ++ (type.routinePrefix ++ digits) ++ [Char.ofNat 0]) ∧
      (∀ letter ∈ digits, letter.isAlphanum = true) ∧
      (type.routinePrefix ++ digits).length = maxRoutineLen ∧
      (type.caret ++ (type.routinePrefix ++ digits) ++ [Char.ofNat 0]).length = type.retNameLen) ∧
    ∀ type hash otherType otherHash,
      generateNameType type hash type.retNameLen =
          generateNameType otherType otherHash otherType.retNameLen ↔
        type = otherType ∧ hash = otherHash := by
  refine ⟨fun type hash => ?_, ?_⟩
  · have length := length_ydbHashToString 11 hash.one.toNat hash.two.toNat
    refine ⟨_, generateNameType_eq type hash, isAlphanum_of_mem_ydbHashToString 11, ?_, ?_⟩
    · rw [length_append, length]
      cases type <;> decide +kernel
    · rw [length_append, length_append, length_append, length]
      cases type <;> decide +kernel
  · refine fun type hash otherType otherHash => ⟨fun same => ?_, ?_⟩
    swap
    · rintro ⟨rfl, rfl⟩
      rfl
    rw [generateNameType_eq, generateNameType_eq, Option.some_inj] at same
    have names := append_cancel_right same
    rw [← append_assoc, ← append_assoc] at names
    obtain ⟨starts, digits⟩ := append_inj' names (by simp only [length_ydbHashToString])
    obtain rfl : type = otherType := by
      revert starts
      cases type <;> cases otherType <;> decide +kernel
    have below (half : UInt64) : half.toNat < 62 ^ 11 :=
      Nat.lt_trans half.toNat_lt (by decide)
    obtain ⟨one, two⟩ := ydbHashToString_inj 11 (below _) (below _) (below _) (below _) digits
    exact ⟨rfl, Hash128.ext (UInt64.toNat_inj.1 one) (UInt64.toNat_inj.1 two)⟩

end Octo.Schema
