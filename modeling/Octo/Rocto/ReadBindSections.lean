import Octo.Rocto.BindMessage

/-!
# The sections of a Bind message

What each part of `read_bind` accepts, and where it leaves the pointer. The bytes that the pointer
has not passed are a list, and the memory holds it. A part that succeeds has found its section at
the beginning of that list.
-/
namespace Octo.Rocto

open Octo.Foundation List Memory Int

variable {memory : Memory}

/-! ## Names -/

variable {lastByte address next position : Int} {rest bytes dest source : List UInt8}
    {converted : Memory} {formats : List Bool} {count length : Nat} {parms : List BindParm}

/-- The loop passes the letters of a name. -/
theorem skipName_append (name : List UInt8) {fuel : Nat} (noNull : 0 ∉ name)
    (holds : memory.Holds address name) (inside : address + name.length ≤ lastByte) :
    skipName memory lastByte (name.length + fuel) address =
      skipName memory lastByte fuel (address + name.length) := by
  induction name generalizing address with
  | nil => simp
  | cons letter name ih =>
    rw [mem_cons, not_or] at noNull
    obtain ⟨here, behind⟩ := holds
    rw [length_cons] at inside ⊢
    rw [Nat.add_right_comm, skipName, if_pos ⟨by omega, by rw [here]; exact Ne.symm noNull.1⟩,
      ih noNull.2 behind (by push_cast at inside; omega)]
    congr 1
    omega

variable {name : List UInt8} {field : String} {high low : UInt8} {ε α β : Type}
  {result : Except ε α} {value : β} {num : Int} {codes : Nat} {values : List (List UInt8)}
  (holds : memory.Holds address bytes) (last : lastByte = address + bytes.length)

theorem readName_of_holds (field : String) (noNull : 0 ∉ name)
    (holds : memory.Holds address (name ++ 0 :: rest))
    (last : lastByte = address + (name ++ 0 :: rest).length) :
    readName memory lastByte address field = .ok (address + name.length + 1) := by
  obtain ⟨letters, null, -⟩ := holds_append.1 holds
  rw [length_append, length_cons] at last
  have fuel : (lastByte - address).toNat = name.length + (rest.length + 1) := by omega
  have ended : skipName memory lastByte (lastByte - address).toNat address =
      address + name.length := by
    rw [fuel, skipName_append name noNull letters (by omega), skipName, if_neg (by simp [null])]
  unfold readName
  rw [ended, if_neg]
  rintro (same | notNull)
  · omega
  · exact notNull null

include holds last in
theorem readName_eq_ok (read : readName memory lastByte address field = .ok next) :
    ∃ name rest, bytes = name ++ 0 :: rest ∧ 0 ∉ name ∧ next = address + name.length + 1 := by
  by_cases null : 0 ∈ bytes
  · obtain ⟨name, rest, rfl, noNull⟩ := eq_append_cons_of_mem null
    rw [readName_of_holds field noNull holds last] at read
    cases read
    exact ⟨name, rest, rfl, noNull, rfl⟩
  · have fuel : (lastByte - address).toNat = bytes.length + 0 := by omega
    have ended : skipName memory lastByte (lastByte - address).toNat address = lastByte := by
      rw [fuel, skipName_append bytes null holds (by omega), skipName, last]
    rw [readName, ended, if_pos (.inl rfl)] at read
    cases read

/-! ## Format codes -/

/-- A memory in which format codes have been turned round. -/
structure Converted (memory converted : Memory) (address : Int) (formats : List Bool) : Prop where
  outside : ∀ position, position < address ∨ address + 2 * formats.length ≤ position →
    converted position = memory position
  codes : CarriesFormats converted address formats

theorem int16_encodeFormat (binary : Bool) :
    int16 0 (if binary then 1 else 0) = formatCode binary := by
  cases binary <;> simp [int16, formatCode]

theorem encodeFormat_of_int16 (valid : int16 high low = 0 ∨ int16 high low = 1) :
    ∃ binary, [high, low] = encodeFormat binary ∧ int16 high low = formatCode binary := by
  obtain text | binary := valid
  · refine ⟨false, ?_, text⟩
    rw [← bytes16_of_int16 (show int16 high low = ((0 : Nat) : Int) from text)]
    rfl
  · refine ⟨true, ?_, binary⟩
    rw [← bytes16_of_int16 (show int16 high low = ((1 : Nat) : Int) from binary)]
    rfl

theorem Converted.refl (memory : Memory) (address : Int) : Converted memory memory address [] :=
  ⟨fun _ _ => rfl, fun _ _ found => by simp at found⟩

/-- One code, and the rest of them behind it. -/
theorem Converted.cons {binary : Bool} (code : memory.int16At address = formatCode binary)
    (rest : Converted (memory.swap16 address) converted (address + 2) formats) :
    Converted memory converted address (binary :: formats) := by
  constructor
  · intro position outside
    rw [length_cons] at outside
    rw [rest.outside position (by omega), swap16_of_ne (by omega)]
  · intro index other found
    cases index with
    | zero =>
      obtain rfl : binary = other := by simpa using found
      rw [← code, ← native16At_swap16, show address + 2 * ((0 : Nat) : Int) = address by omega]
      exact native16At_agree (rest.outside _ (by omega)) (rest.outside _ (by omega))
    | succ index =>
      have := rest.codes index other (by simpa using found)
      rw [← this]
      congr 1
      omega

theorem holds_swap16 (holds : memory.Holds (address + 2) bytes) :
    (memory.swap16 address).Holds (address + 2) bytes :=
  holds.agree fun _ above _ => swap16_of_ne (.inr above)

/-- The loop accepts the codes 0 and 1. -/
theorem convertFormatCodes_of_holds (field : String) (formats : List Bool)
    (holds : memory.Holds address (formats.flatMap encodeFormat)) :
    ∃ converted, convertFormatCodes field formats.length memory address = .ok converted ∧
      Converted memory converted address formats := by
  induction formats generalizing memory address with
  | nil => exact ⟨memory, rfl, .refl memory address⟩
  | cons binary formats ih =>
    have code : memory.int16At address = formatCode binary :=
      (int16At_of_holds holds).trans (int16_encodeFormat binary)
    have behind : memory.Holds (address + 2) (formats.flatMap encodeFormat) :=
      (holds_append.1 holds).2
    obtain ⟨converted, read, isConverted⟩ := ih (holds_swap16 behind)
    refine ⟨converted, ?_, .cons code isConverted⟩
    rw [length_cons, convertFormatCodes, if_neg, read]
    rw [code]
    cases binary <;> decide

theorem exists_two_bytes (long : 2 ≤ bytes.length) :
    ∃ high low rest, bytes = high :: low :: rest := by
  match bytes, long with
  | high :: low :: rest, _ => exact ⟨high, low, rest, rfl⟩

theorem holds_behind_two (holds : memory.Holds address (high :: low :: rest)) :
    memory.Holds (address + 2) rest := by
  have := holds.2.2
  rwa [add_assoc] at this

/-- What the loop accepts are codes 0 and 1. -/
theorem convertFormatCodes_eq_ok (count : Nat)
    (holds : memory.Holds address bytes) (long : 2 * count ≤ bytes.length)
    (read : convertFormatCodes field count memory address = .ok converted) :
    ∃ formats rest, bytes = formats.flatMap encodeFormat ++ rest ∧ formats.length = count ∧
      Converted memory converted address formats := by
  induction count generalizing memory address bytes with
  | zero =>
    cases read
    exact ⟨[], bytes, rfl, rfl, .refl _ address⟩
  | succ count ih =>
    obtain ⟨high, low, rest, rfl⟩ := exists_two_bytes (show 2 ≤ bytes.length by omega)
    rw [convertFormatCodes] at read
    split at read
    · cases read
    · rename_i valid
      rw [int16At_of_holds holds] at valid
      obtain ⟨binary, same, code⟩ := encodeFormat_of_int16 (by omega : int16 high low = 0 ∨ _)
      obtain ⟨formats, more, rfl, length, isConverted⟩ :=
        ih (holds_swap16 (holds_behind_two holds)) (by simpa using by simp at long; omega) read
      refine ⟨binary :: formats, more, ?_, by rw [length_cons, length], .cons ?_ isConverted⟩
      · rw [flatMap_cons, ← same]
        rfl
      · rw [int16At_of_holds holds, code]

/-! ## The head of a message -/

theorem ok_of_map_eq_ok {build : α → β} (mapped : result.map build = .ok value) :
    ∃ found, result = .ok found ∧ build found = value := by
  cases result with
  | error error => cases mapped
  | ok found => exact ⟨found, rfl, Except.ok.inj mapped⟩

theorem readParmFormats_of_holds (small : formats.length < 32768)
    (holds : memory.Holds address (bytes16 formats.length ++
      (formats.flatMap encodeFormat ++ rest)))
    (last : lastByte = address + (2 + 2 * formats.length + rest.length)) :
    ∃ converted, readParmFormats memory lastByte address = .ok (converted, ↑formats.length) ∧
      Converted memory converted (address + 2) formats := by
  have number : memory.int16At address = formats.length :=
    (int16At_of_holds holds).trans (int16_bytes small)
  have codes : memory.Holds (address + 2) (formats.flatMap encodeFormat) :=
    (holds_append.1 (holds_append.1 holds).2).1
  obtain ⟨converted, read, isConverted⟩ := convertFormatCodes_of_holds "parameter" formats codes
  refine ⟨converted, ?_, isConverted⟩
  unfold readParmFormats
  rw [number, if_neg (by omega), if_neg (by omega), if_neg (by omega), toNat_natCast, read]
  rfl

include holds last in
theorem readParmFormats_eq_ok
    (read : readParmFormats memory lastByte address = .ok (converted, num)) :
    ∃ formats rest, bytes = bytes16 formats.length ++ (formats.flatMap encodeFormat ++ rest) ∧
      num = formats.length ∧ Converted memory converted (address + 2) formats := by
  unfold readParmFormats at read
  dsimp only at read
  split at read
  · cases read
  split at read
  · cases read
  split at read
  · cases read
  rename_i nonneg inside codesInside
  obtain ⟨high, low, rest, rfl⟩ := exists_two_bytes (show 2 ≤ bytes.length by omega)
  rw [int16At_of_holds holds] at nonneg codesInside read
  obtain ⟨found, convertedOk, same⟩ := ok_of_map_eq_ok read
  obtain ⟨rfl, rfl⟩ := Prod.mk.inj same
  simp only [length_cons] at last
  obtain ⟨formats, more, rfl, length, isConverted⟩ :=
    convertFormatCodes_eq_ok _ (holds_behind_two holds) (by omega) convertedOk
  have number : int16 high low = formats.length := by omega
  refine ⟨formats, more, ?_, number, isConverted⟩
  rw [bytes16_of_int16 number]
  rfl

theorem readNumParms_of_holds (small : count < 32768) (enough : codes ≤ count)
    (all : codes ≤ 1 ∨ codes = count) (holds : memory.Holds address (bytes16 count ++ rest))
    (last : lastByte = address + (2 + rest.length)) :
    readNumParms memory lastByte address codes = .ok ↑count := by
  have number : memory.int16At address = count :=
    (int16At_of_holds holds).trans (int16_bytes small)
  unfold readNumParms
  rw [number, if_neg (by omega), if_neg (by omega), if_neg (by omega), if_neg (by omega)]

include holds last in
theorem readNumParms_eq_ok (read : readNumParms memory lastByte address codes = .ok num) :
    ∃ (count : Nat) (rest : List UInt8), bytes = bytes16 count ++ rest ∧ num = count ∧
      count < 32768 ∧ codes ≤ count ∧ (codes ≤ 1 ∨ codes = count) := by
  unfold readNumParms at read
  dsimp only at read
  split at read
  · cases read
  split at read
  · cases read
  split at read
  · cases read
  split at read
  · cases read
  rename_i nonneg enough all inside
  obtain ⟨high, low, rest, rfl⟩ := exists_two_bytes (show 2 ≤ bytes.length by omega)
  rw [int16At_of_holds holds] at nonneg enough all read
  cases read
  have below := int16_lt high low
  have number : int16 high low = (int16 high low).toNat := by omega
  refine ⟨(int16 high low).toNat, rest, ?_, number, by omega, by omega, by omega⟩
  rw [bytes16_of_int16 number]
  rfl

/-- What `readHead` returns for the head of a message. -/
structure HeadRead (memory : Memory) (dest source : List UInt8) (formats : List Bool) (count : Nat)
    (head : BindHead) : Prop where
  converted : Converted memory head.memory head.parmFormatCodes formats
  sourceAddress : head.source = dest.length + 1
  numParmFormatCodes : head.numParmFormatCodes = formats.length
  parmFormatCodes : head.parmFormatCodes = dest.length + source.length + 4
  numParms : head.numParms = count
  curPointer : head.curPointer = (encodeHead dest source formats count).length

theorem length_flatMap_encodeFormat (formats : List Bool) :
    (formats.flatMap encodeFormat).length = 2 * formats.length := by
  induction formats with
  | nil => rfl
  | cons binary formats ih =>
    rw [flatMap_cons, length_append, ih]
    exact (Nat.add_comm ..).trans (Nat.mul_succ 2 _).symm

theorem length_encodeHead (dest source : List UInt8) (formats : List Bool) (count : Nat) :
    (encodeHead dest source formats count).length =
      dest.length + source.length + 2 * formats.length + 6 := by
  simp only [encodeHead, length_append, length_cons, length_flatMap_encodeFormat, bytes16,
    length_nil]
  omega

theorem encodeHead_append (dest source : List UInt8) (formats : List Bool) (count : Nat)
    (rest : List UInt8) :
    encodeHead dest source formats count ++ rest =
      dest ++ 0 :: (source ++ 0 :: (bytes16 formats.length ++
        (formats.flatMap encodeFormat ++ (bytes16 count ++ rest)))) := by
  simp [encodeHead]

theorem length_bytes16 (number : Nat) : (bytes16 number).length = 2 :=
  rfl

/-- The bytes behind a name with its null terminator. -/
theorem holds_behind_name (holds : memory.Holds address (name ++ 0 :: rest)) :
    memory.Holds (address + name.length + 1) rest :=
  (holds_append.1 holds).2.2

/-- The bytes behind format codes, after these have been turned round. -/
theorem Converted.holds_behind (isConverted : Converted memory converted address formats)
    (holds : memory.Holds position bytes) (behind : address + 2 * formats.length ≤ position) :
    converted.Holds position bytes :=
  holds.agree fun other above _ => isConverted.outside other (.inr (by omega))

/-- Behind two names and format codes, all that is left of the head is the number of parameters. -/
theorem readHead_eq_map (destNoNull : 0 ∉ dest) (sourceNoNull : 0 ∉ source)
    (small : formats.length < 32768)
    (holds : memory.Holds 0 (dest ++ 0 :: (source ++ 0 :: (bytes16 formats.length ++
      (formats.flatMap encodeFormat ++ rest)))))
    (whole : length = dest.length + source.length + 2 * formats.length + 4 + rest.length) :
    ∃ converted, Converted memory converted (dest.length + source.length + 4) formats ∧
      converted.Holds (dest.length + source.length + 4 + formats.length * 2) rest ∧
      readHead memory length = (readNumParms converted length
        (dest.length + source.length + 4 + formats.length * 2) formats.length).map fun numParms =>
          ⟨converted, dest.length + 1, formats.length, dest.length + source.length + 4, numParms,
            dest.length + source.length + 4 + formats.length * 2 + 2⟩ := by
  have behindDest := holds_behind_name holds
  have behindSource := holds_behind_name behindDest
  have behindCodes := (holds_append.1 (holds_append.1 behindSource).2).2
  rw [length_bytes16, length_flatMap_encodeFormat] at behindCodes
  have destRead := readName_of_holds "destination" destNoNull holds
    (show (length : Int) = _ by
      simp only [length_append, length_cons, length_bytes16, length_flatMap_encodeFormat]
      omega)
  have sourceRead := readName_of_holds "source" sourceNoNull behindDest
    (show (length : Int) = _ by
      simp only [length_append, length_cons, length_bytes16, length_flatMap_encodeFormat]
      omega)
  obtain ⟨converted, formatsRead, isConverted⟩ := readParmFormats_of_holds small behindSource
    (show (length : Int) = _ by omega)
  have behindConverted := isConverted.holds_behind behindCodes (by omega)
  have sourceAt : (0 : Int) + dest.length + 1 = dest.length + 1 := by omega
  have codesAt : (dest.length : Int) + 1 + source.length + 1 + 2 =
      dest.length + source.length + 4 := by omega
  have behindAt : (dest.length : Int) + 1 + source.length + 1 + (2 : Nat) +
      (2 * formats.length : Nat) =
      dest.length + source.length + 4 + formats.length * 2 := by omega
  rw [sourceAt] at destRead sourceRead formatsRead isConverted behindConverted
  rw [codesAt] at isConverted
  rw [behindAt] at behindConverted
  refine ⟨converted, isConverted, behindConverted, ?_⟩
  simp only [readHead, destRead, sourceRead, formatsRead, bind, Except.bind, codesAt]
  cases readNumParms converted length (dest.length + source.length + 4 + formats.length * 2)
    formats.length <;> rfl

section

variable (stored : memory.Holds 0 (encodeHead dest source formats count ++ rest))
  (whole : length = (encodeHead dest source formats count ++ rest).length)
include stored whole

theorem readHead_of_holds (valid : ValidHead dest source formats count) :
    ∃ head, readHead memory length = .ok head ∧ HeadRead memory dest source formats count head := by
  rw [length_append, length_encodeHead] at whole
  rw [encodeHead_append] at stored
  obtain ⟨converted, isConverted, behind, read⟩ := readHead_eq_map valid.dest_noNull
    valid.source_noNull (Nat.lt_of_le_of_lt valid.codes valid.small) stored
    (show length = _ by rw [length_append, length_bytes16]; omega)
  have numberRead := readNumParms_of_holds valid.small valid.codes valid.codes_all behind
    (show (length : Int) = _ by omega)
  rw [numberRead] at read
  refine ⟨_, read, isConverted, rfl, rfl, rfl, rfl, ?_⟩
  rw [length_encodeHead]
  dsimp only
  omega

/-- More format codes than parameters are an error. -/
theorem readHead_of_tooMany (destNoNull : 0 ∉ dest) (sourceNoNull : 0 ∉ source)
    (small : formats.length < 32768) (tooMany : count < formats.length) :
    readHead memory length = .error (.tooManyValues "parameter format codes") := by
  rw [length_append, length_encodeHead] at whole
  rw [encodeHead_append] at stored
  obtain ⟨converted, -, behind, read⟩ := readHead_eq_map destNoNull sourceNoNull small stored
    (show length = _ by rw [length_append, length_bytes16]; omega)
  have number := (int16At_of_holds behind).trans (int16_bytes (Nat.lt_trans tooMany small))
  rw [read, readNumParms, if_neg (by omega), if_pos (by omega)]
  rfl

end

theorem ok_of_bind_eq_ok {next : α → Except ε β} (bound : (result >>= next) = .ok value) :
    ∃ found, result = .ok found ∧ next found = .ok value := by
  cases result with
  | error error => cases bound
  | ok found => exact ⟨found, rfl, bound⟩

theorem readHead_eq_ok {data : List UInt8} {head : BindHead} (holds : memory.Holds 0 data)
    (read : readHead memory data.length = .ok head) :
    ∃ dest source formats count rest, ValidHead dest source formats count ∧
      data = encodeHead dest source formats count ++ rest ∧
      HeadRead memory dest source formats count head := by
  obtain ⟨sourceAddress, destRead, read⟩ := ok_of_bind_eq_ok read
  obtain ⟨dest, behindDest, rfl, destNoNull, rfl⟩ := readName_eq_ok holds (by omega) destRead
  have holdsDest := holds_behind_name holds
  obtain ⟨curPointer, sourceRead, read⟩ := ok_of_bind_eq_ok read
  obtain ⟨source, behindSource, rfl, sourceNoNull, rfl⟩ := readName_eq_ok holdsDest
    (by simp only [length_append, length_cons]; omega) sourceRead
  have holdsSource := holds_behind_name holdsDest
  obtain ⟨⟨converted, num⟩, formatsRead, read⟩ := ok_of_bind_eq_ok read
  obtain ⟨formats, behindCodes, rfl, rfl, isConverted⟩ := readParmFormats_eq_ok holdsSource
    (by simp only [length_append, length_cons]; omega) formatsRead
  have holdsCodes := (holds_append.1 (holds_append.1 holdsSource).2).2
  rw [length_bytes16, length_flatMap_encodeFormat] at holdsCodes
  have behindConverted := isConverted.holds_behind holdsCodes (by omega)
  obtain ⟨numParms, numberRead, read⟩ := ok_of_bind_eq_ok read
  have positions : (0 : Int) + dest.length + 1 + source.length + 1 + (2 : Nat) +
      (2 * formats.length : Nat) = 0 + dest.length + 1 + source.length + 1 + 2 + formats.length *
        2 := by
    omega
  rw [positions] at behindConverted
  obtain ⟨count, rest, rfl, rfl, small, codes, all⟩ := readNumParms_eq_ok behindConverted
    (by
      simp only [length_append, length_cons, length_bytes16, length_flatMap_encodeFormat]
      omega) numberRead
  cases read
  refine ⟨dest, source, formats, count, rest, ⟨destNoNull, sourceNoNull, codes, all, small⟩,
    (encodeHead_append ..).symm, ⟨isConverted, ?_, rfl, ?_, rfl, ?_⟩⟩
  · exact congrArg (· + 1) (zero_add _)
  · dsimp only
    omega
  · rw [length_encodeHead]
    dsimp only
    omega

/-! ## Parameters -/

/-- Parameters that are not NULL. -/
def encodeValues (values : List (List UInt8)) : List UInt8 :=
  values.flatMap fun bytes => encodeParm (some bytes)

/-- The parameters in memory, from an address on. -/
def parmsAt : Int → List (List UInt8) → List BindParm
  | _, [] => []
  | address, bytes :: values =>
    ⟨bytes.length, address + 4⟩ :: parmsAt (address + 4 + bytes.length) values

theorem length_parmsAt (address : Int) (values : List (List UInt8)) :
    (parmsAt address values).length = values.length := by
  induction values generalizing address with
  | nil => rfl
  | cons bytes values ih => rw [parmsAt, length_cons, ih, length_cons]

theorem encodeValues_cons_append (bytes : List UInt8) (values : List (List UInt8))
    (rest : List UInt8) :
    encodeValues (bytes :: values) ++ rest =
      bytes32 bytes.length ++ (bytes ++ (encodeValues values ++ rest)) := by
  simp [encodeValues, encodeParm]

theorem length_encodeValues_cons (bytes : List UInt8) (values : List (List UInt8)) :
    (encodeValues (bytes :: values)).length = 4 + bytes.length + (encodeValues values).length := by
  simp [encodeValues, encodeParm, bytes32]
  omega

/-- The loop passes parameters that are not NULL. -/
theorem readParms_append (values : List (List UInt8)) (count : Nat)
    (short : ∀ bytes ∈ values, bytes.length < 2147483648)
    (holds : memory.Holds address (encodeValues values ++ rest))
    (last : lastByte = address + (encodeValues values ++ rest).length) :
    readParms memory lastByte (values.length + count) address =
      (readParms memory lastByte count (address + (encodeValues values).length)).map fun read =>
        (parmsAt address values ++ read.1, read.2) := by
  induction values generalizing address with
  | nil =>
    rw [length_nil, Nat.zero_add, show address + ((encodeValues []).length : Int) = address from
      add_zero address]
    cases readParms memory lastByte count address <;> rfl
  | cons bytes values ih =>
    obtain ⟨shortBytes, shortValues⟩ := forall_mem_cons.1 short
    rw [encodeValues_cons_append] at holds
    have number : memory.int32At address = bytes.length :=
      (int32At_of_holds holds).trans (int32_bytes shortBytes)
    have behind : memory.Holds (address + 4 + bytes.length) (encodeValues values ++ rest) :=
      (holds_append.1 (holds_append.1 holds).2).2
    rw [length_append, length_encodeValues_cons] at last
    rw [length_cons, Nat.add_right_comm, readParms, if_neg (by omega)]
    rw [number, if_neg (by omega), ih shortValues behind (by
        rw [length_append]
        omega),
      length_encodeValues_cons]
    have position : address + 4 + (bytes.length : Int) + (encodeValues values).length =
        address + ((4 + bytes.length + (encodeValues values).length : Nat) : Int) := by
      omega
    rw [position]
    cases readParms memory lastByte count
      (address + ((4 + bytes.length + (encodeValues values).length : Nat) : Int)) <;> rfl

theorem carries_parmsAt (holds : memory.Holds address (encodeValues values ++ rest)) :
    Forall₂ (CarriesParm memory) (parmsAt address values) (values.map some) := by
  induction values generalizing address with
  | nil => exact .nil
  | cons bytes values ih =>
    rw [encodeValues_cons_append] at holds
    obtain ⟨here, behind⟩ := holds_append.1 (holds_append.1 holds).2
    exact .cons ⟨rfl, here⟩ (ih behind)

theorem exists_four_bytes (long : 4 ≤ bytes.length) :
    ∃ first second third fourth rest, bytes = first :: second :: third :: fourth :: rest := by
  match bytes, long with
  | first :: second :: third :: fourth :: rest, _ => exact ⟨first, second, third, fourth, rest, rfl⟩

/-- One pass of the loop. -/
theorem readParms_succ_eq_ok
    (read : readParms memory lastByte (count + 1) address = .ok (parms, next)) :
    address + 4 ≤ lastByte ∧ address + 4 + memory.int32At address ≤ lastByte ∧ ∃ more,
      parms = ⟨memory.int32At address, address + 4⟩ :: more ∧
      readParms memory lastByte count (address + 4 + memory.int32At address) =
        .ok (more, next) := by
  rw [readParms] at read
  split at read
  · cases read
  dsimp only at read
  split at read
  · cases read
  obtain ⟨⟨more, end_⟩, readRest, same⟩ := ok_of_map_eq_ok read
  obtain ⟨rfl, rfl⟩ := Prod.mk.inj same
  exact ⟨by omega, by omega, more, rfl, readRest⟩

include holds last in
/-- What the loop accepts are parameters that are not NULL, or there is a negative length. -/
theorem readParms_eq_ok (count : Nat)
    (read : readParms memory lastByte count address = .ok (parms, next)) :
    (∃ values first second third fourth rest, values.length < count ∧
        (∀ value ∈ values, value.length < 2147483648) ∧ int32 first second third fourth < 0 ∧
        bytes = encodeValues values ++ (first :: second :: third :: fourth :: rest)) ∨
      ∃ values rest, values.length = count ∧ (∀ value ∈ values, value.length < 2147483648) ∧
        bytes = encodeValues values ++ rest ∧ parms = parmsAt address values ∧
        next = address + (encodeValues values).length := by
  induction count generalizing address bytes parms with
  | zero =>
    cases read
    exact .inr ⟨[], bytes, rfl, forall_mem_nil _, rfl, rfl, (add_zero _).symm⟩
  | succ count ih =>
    obtain ⟨inside, valueInside, others, rfl, readRest⟩ := readParms_succ_eq_ok read
    obtain ⟨first, second, third, fourth, rest, rfl⟩ :=
      exists_four_bytes (show 4 ≤ bytes.length by omega)
    rw [int32At_of_holds holds] at readRest valueInside ⊢
    by_cases negative : int32 first second third fourth < 0
    · exact .inl ⟨[], first, second, third, fourth, rest, Nat.succ_pos _, forall_mem_nil _,
        negative, rfl⟩
    · have below := int32_lt first second third fourth
      obtain ⟨value, more, rfl, length⟩ : ∃ value more, rest = value ++ more ∧
          int32 first second third fourth = value.length := by
        refine ⟨rest.take (int32 first second third fourth).toNat,
          rest.drop (int32 first second third fourth).toNat, (take_append_drop ..).symm, ?_⟩
        simp only [length_cons] at last
        rw [length_take]
        omega
      have header := bytes32_of_int32 length
      rw [length] at readRest
      have behind : memory.Holds (address + 4 + value.length) more := by
        have := holds.2.2.2.2
        rw [show address + 1 + 1 + 1 + 1 = address + 4 by omega] at this
        exact (holds_append.1 this).2
      simp only [length_cons, length_append] at last
      obtain ⟨values, f, s, t, u, tail, fewer, short, sign, rfl⟩ |
          ⟨values, tail, all, short, rfl, rfl, rfl⟩ := ih behind (by omega) readRest
      · left
        refine ⟨value :: values, f, s, t, u, tail, Nat.succ_lt_succ fewer,
          forall_mem_cons.2 ⟨by omega, short⟩, sign, ?_⟩
        rw [encodeValues_cons_append, header]
        simp
      · right
        refine ⟨value :: values, tail, congrArg Nat.succ all,
          forall_mem_cons.2 ⟨by omega, short⟩, ?_, ?_, ?_⟩
        · rw [encodeValues_cons_append, header]
          simp
        · rw [length]
          rfl
        · rw [length_encodeValues_cons]
          omega

/-- A negative length stays among the parameters. -/
theorem exists_negative_of_readParms {first second third fourth : UInt8}
    (fewer : values.length < count) (short : ∀ bytes ∈ values, bytes.length < 2147483648)
    (negative : int32 first second third fourth < 0)
    (holds : memory.Holds address (encodeValues values ++
      (first :: second :: third :: fourth :: rest)))
    (last : lastByte = address + (encodeValues values ++
      (first :: second :: third :: fourth :: rest)).length)
    (read : readParms memory lastByte count address = .ok (parms, next)) :
    ∃ parm ∈ parms, parm.length < 0 := by
  obtain ⟨others, rfl⟩ := Nat.exists_eq_add_of_lt fewer
  rw [Nat.add_assoc, readParms_append values (others + 1) short holds last] at read
  obtain ⟨⟨found, after⟩, readRest, same⟩ := ok_of_map_eq_ok read
  obtain ⟨rfl, rfl⟩ := Prod.mk.inj same
  have behind := (holds_append.1 holds).2
  obtain ⟨-, -, more, rfl, -⟩ := readParms_succ_eq_ok readRest
  refine ⟨_, mem_append_right _ mem_cons_self, ?_⟩
  rw [int32At_of_holds behind]
  exact negative

/-! ## NULL -/

/-- Behind a NULL the pointer stands on a byte of its length, and behind further ones as well. So
what is read as the parameters is not what the message has, unless only NULLs follow. -/
theorem null_of_readParms (values : List (Option (List UInt8))) {tail : List UInt8} {other : Memory}
    (lags : address < position ∨ address = position ∧ values.head? = some none)
    (nulls : ∀ place, address ≤ place → place < position → memory place = 255)
    (holds : memory.Holds position (values.flatMap encodeParm ++ tail))
    (read : readParms memory lastByte values.length address = .ok (parms, next))
    (carries : Forall₂ (CarriesParm other) parms values) : memory next = 255 := by
  induction values generalizing address position parms with
  | nil =>
    cases read
    exact nulls _ (by omega) (by simpa using lags)
  | cons value values ih =>
    obtain ⟨-, -, more, rfl, readRest⟩ := readParms_succ_eq_ok read
    obtain ⟨carriesFirst, carriesRest⟩ := forall₂_cons.1 carries
    cases value with
    | some bytes =>
      have sign : memory address = 255 := nulls _ (by omega) (by simpa using lags)
      have negative : memory.int32At address < 0 := int32_neg_of_first (by rw [sign]; decide)
      have length : memory.int32At address = bytes.length := carriesFirst.1
      omega
    | none =>
      have length : memory.int32At address = -1 := carriesFirst
      rw [flatMap_cons, append_assoc] at holds
      have behind : memory.Holds (position + 4) (values.flatMap encodeParm ++ tail) :=
        (holds_append.1 holds).2
      refine ih (.inl (by omega)) ?_ behind readRest carriesRest
      intro place above below
      by_cases before : place < position
      · exact nulls place (by omega) before
      · exact eq_of_holds_four holds (not_lt.1 before) below

/-! ## Result column format codes -/

theorem readResultFormats_of_holds (small : formats.length < 32768)
    (holds : memory.Holds address (encodeResultFormats formats ++ rest))
    (last : lastByte = address + (encodeResultFormats formats ++ rest).length) :
    ∃ converted, readResultFormats memory lastByte address =
        .ok ⟨converted, formats.length, if rest = [] then [] else [.trailingChars]⟩ ∧
      Converted memory converted (address + 2) formats := by
  rw [encodeResultFormats, append_assoc] at holds
  simp only [encodeResultFormats, length_append, length_bytes16,
    length_flatMap_encodeFormat] at last
  have number : memory.int16At address = formats.length :=
    (int16At_of_holds holds).trans (int16_bytes small)
  have codes : memory.Holds (address + 2) (formats.flatMap encodeFormat) :=
    (holds_append.1 (holds_append.1 holds).2).1
  obtain ⟨converted, read, isConverted⟩ := convertFormatCodes_of_holds "result column" formats codes
  have reported : (if address + 2 + (formats.length : Int) * 2 ≠ lastByte then
      [BindError.trailingChars]
      else []) = if rest = [] then [] else [.trailingChars] := by
    by_cases empty : rest = []
    · rw [if_pos empty, if_neg (by rw [empty, length_nil] at last; omega)]
    · have := length_pos_iff.2 empty
      rw [if_neg empty, if_pos (by omega)]
  refine ⟨converted, ?_, isConverted⟩
  unfold readResultFormats
  dsimp only
  rw [number, reported, if_neg (by omega)]
  cases formats with
  | nil =>
    cases read
    rfl
  | cons binary formats =>
    rw [if_pos (by rw [length_cons]; omega), if_neg (by omega), toNat_natCast, read]
    rfl

/-- Without the bytes of the number, the zeros behind the data are read as the number. -/
theorem readResultFormats_of_zeros (first : memory address = 0)
    (second : memory (address + 1) = 0) (short : lastByte < address + 2) :
    readResultFormats memory lastByte address = .ok ⟨memory, 0, [.trailingChars]⟩ := by
  have number : memory.int16At address = 0 := by
    rw [int16At, first, second]
    simp [int16]
  unfold readResultFormats
  rw [number, if_neg (by omega), if_neg (by omega), if_pos (by omega)]

include holds last in
/-- What is accepted are result column format codes, or their number is missing. -/
theorem readResultFormats_eq_ok {tail : BindTail}
    (read : readResultFormats memory lastByte address = .ok tail) :
    (∃ formats rest, bytes = encodeResultFormats formats ++ rest ∧ formats.length < 32768) ∨
      bytes = [] ∨ bytes = [0] := by
  unfold readResultFormats at read
  dsimp only at read
  split at read
  · cases read
  rename_i nonneg
  by_cases long : 2 ≤ bytes.length
  · left
    obtain ⟨high, low, rest, rfl⟩ := exists_two_bytes long
    have below := int16_lt high low
    rw [int16At_of_holds holds] at read nonneg
    simp only [length_cons] at last
    split at read
    · split at read
      · cases read
      obtain ⟨converted, convertedOk, -⟩ := ok_of_map_eq_ok read
      obtain ⟨formats, more, rfl, length, -⟩ :=
        convertFormatCodes_eq_ok _ (holds_behind_two holds) (by omega) convertedOk
      have number : int16 high low = formats.length := by omega
      refine ⟨formats, more, ?_, by omega⟩
      rw [encodeResultFormats, bytes16_of_int16 number]
      rfl
    · have number : int16 high low = ((0 : Nat) : Int) := by omega
      refine ⟨[], rest, ?_, by decide⟩
      rw [encodeResultFormats, length_nil, bytes16_of_int16 number]
      rfl
  · right
    match bytes with
    | [] => exact .inl rfl
    | [byte] =>
      right
      split at read
      · rw [if_pos (by simp at last; omega)] at read
        cases read
      · have zero : memory.int16At address = 0 := by omega
        have high := holds.1
        have := (memory (address + 1)).toNat_lt
        have := byte.toNat_lt
        rw [int16At, high, int16] at zero
        have none : byte.toNat = 0 := by split at zero <;> omega
        rw [show byte = 0 from UInt8.toNat_inj.1 none]
    | _ :: _ :: _ => exact absurd (by simp) long

end Octo.Rocto
