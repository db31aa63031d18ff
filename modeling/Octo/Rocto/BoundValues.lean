import Octo.Rocto.PreparedParmsCorrect
import Octo.Rocto.ReadBindCorrect

/-!
# The values of a Bind message on a portal

`handle_bind` counts the placeholders apart from the parameters, but it takes the format code by the
number of the parameter. It takes the length of a text from a null terminator and reads integers of
two and four bytes without a sign. For each placeholder this says when its value comes out right,
and a portal is right if and only if all of them do.
-/
namespace Octo.Rocto

open Octo.Foundation List Option Nat Except Memory

/-! ## One value -/

/-- The integers that lose their sign: negative ones of two or four bytes. -/
def LosesSign (bytes : List UInt8) : Prop :=
  (bytes.length = 2 ∨ bytes.length = 4) ∧ twosComplement bytes < 0

/-- A value comes out right although it is read in the format `used` and was sent in the format
`right`. -/
def ReadRight (memory : Memory) (address : Int) (used right : Bool) :
    Option (List UInt8) → Prop
  | none => used = false ∧ memory address = 0
  | some bytes =>
    match used, right with
    | false, false => 0 ∉ bytes ∧ memory (address + bytes.length) = 0
    | false, true =>
      if integerSized bytes then memory.Spells address (decimal (twosComplement bytes))
      else 0 ∉ bytes ∧ memory (address + bytes.length) = 0
    | true, false => integerSized bytes = false
    | true, true => ¬ LosesSign bytes

/-- The text that `copy_binary_parameter` makes of some bytes. -/
def copiedBinary (bytes : List UInt8) : List UInt8 :=
  if bytes.length = 2 ∨ bytes.length = 4 then decimal (bigEndian bytes) else decodeBinary bytes

variable {memory : Memory} {parm : BindParm} {bytes text : List UInt8} {bind : Bind}
    {last curPointer lastByte : Int} {value : Option (List UInt8)} {binary : Bool}
    {parse : ParseMessage} {types : Nat → Int} {query : List QueryParm} {parms : PreparedParms}
    {position : Nat} {message : BindMessage}

theorem copyBinaryParameter_of_holds (length : parm.length = bytes.length)
    (holds : memory.Holds parm.value bytes) :
    copyBinaryParameter memory parm = some (copiedBinary bytes) := by
  have read := holds.bytesAt_eq
  rw [copyBinaryParameter, length, copiedBinary, decodeBinary, integerSized]
  by_cases one : bytes.length = 1
  · rw [one] at read
    simp [one, binToChar, read]
  by_cases two : bytes.length = 2
  · rw [two] at read
    simp [two, binToInt16, read]
  by_cases four : bytes.length = 4
  · rw [four] at read
    simp [four, binToInt32, read]
  by_cases eight : bytes.length = 8
  · rw [eight] at read
    simp [eight, binToInt64, read]
  · rw [if_neg (by omega), if_neg (by omega), if_neg (by omega),
      if_neg (by omega), Int.toNat_natCast, read]
    simp [one, two, four, eight]

theorem twosComplement_of_nonneg (sign : ¬ twosComplement bytes < 0) :
    twosComplement bytes = bigEndian bytes := by
  cases bytes with
  | nil => rfl
  | cons byte bytes =>
    rw [twosComplement_cons]
    exact if_pos (not_not.1 fun high => sign (twosComplement_neg high))

theorem copiedBinary_eq_decodeBinary :
    copiedBinary bytes = decodeBinary bytes ↔ ¬ LosesSign bytes := by
  rw [copiedBinary]
  by_cases short : bytes.length = 2 ∨ bytes.length = 4
  · have sized : integerSized bytes = true := by
      rw [integerSized]
      obtain length | length := short <;> simp [length]
    rw [if_pos short, decodeBinary, if_pos sized]
    constructor
    · rintro same ⟨-, negative⟩
      exact decimal_neg_ne negative (Int.natCast_nonneg _) same.symm
    · intro keeps
      rw [twosComplement_of_nonneg fun negative => keeps ⟨short, negative⟩]
  · rw [if_neg short]
    exact iff_of_true rfl fun loses => short loses.1

/-- `INT64_TO_STRING_MAX`. -/
def int64ToStringMax : Nat :=
  21

/-- What `copy_binary_parameter` leaves: the `len_alloc` of the buffer, its bytes and its
`len_used`. -/
structure ParmBuffer where
  lenAlloc : Nat
  bytes : List UInt8
  lenUsed : Nat
deriving DecidableEq

/-- `copy_binary_parameter` with an empty buffer. `snprintf` keeps a byte for the null terminator,
but it returns the length of the whole text. -/
def copyIntoBuffer (memory : Memory) (parm : BindParm) (lenAlloc : Nat) : Option ParmBuffer :=
  let parmLen := if parm.length ≤ 8 then int64ToStringMax else parm.length.toNat
  let lenAlloc := if lenAlloc ≤ parmLen then parmLen else lenAlloc
  (copyBinaryParameter memory parm).map fun text =>
    let printed := if parm.length ∈ [1, 2, 4, 8] then text.take (int64ToStringMax - 1) else text
    ⟨lenAlloc, printed, text.length⟩

theorem length_copiedBinary_lt (sized : integerSized bytes) :
    (copiedBinary bytes).length < int64ToStringMax := by
  have below := bigEndian_lt bytes
  obtain ⟨number, small, isNumber⟩ : ∃ number : Int, number.natAbs < 10 ^ 19 ∧
      copiedBinary bytes = decimal number := by
    rw [copiedBinary, decodeBinary, if_pos sized]
    rw [integerSized] at sized
    split
    case isTrue short =>
      refine ⟨_, ?_, rfl⟩
      obtain length | length := short <;> rw [length] at below <;> omega
    case isFalse =>
      refine ⟨_, ?_, rfl⟩
      rw [twosComplement]
      have : bytes.length = 1 ∨ bytes.length = 8 := by grind
      obtain length | length := this <;> rw [length] at below ⊢ <;> split <;> omega
  have digits := (length_toDigits_le_iff (by decide) (by decide)).2 small
  rw [isNumber, decimal, length_map, decimalLetters, int64ToStringMax]
  split
  · exact succ_lt_succ (lt_succ_of_le digits)
  · omega

theorem copiedBinary_eq_bytes : copiedBinary bytes = bytes ↔ integerSized bytes = false := by
  rw [copiedBinary, decodeBinary]
  by_cases short : bytes.length = 2 ∨ bytes.length = 4
  · rw [if_pos short]
    refine iff_of_false (decimal_ne_bytes (.inl rfl)) ?_
    rw [integerSized]
    obtain length | length := short <;> simp [length]
  · rw [if_neg short]
    by_cases sized : integerSized bytes = true
    · rw [if_pos sized]
      exact iff_of_false (decimal_ne_bytes (.inr rfl)) (by simp [sized])
    · rw [if_neg sized]
      exact iff_of_true rfl (Bool.eq_false_iff.2 sized)

/-- Some other value is read as this text. -/
def ReadAs (memory : Memory) (address : Int) (used : Bool) (text : List UInt8)
    (value : Option (List UInt8)) : Prop :=
  match used with
  | false => memory.Spells address text
  | true => ∃ bytes, value = some bytes ∧
      (LosesSign bytes ∧ text = decimal (bigEndian bytes) ∨
        ¬ LosesSign bytes ∧ text = decodeBinary bytes)

theorem copiedBinary_eq_iff : text = copiedBinary bytes ↔
    LosesSign bytes ∧ text = decimal (bigEndian bytes) ∨
      ¬ LosesSign bytes ∧ text = decodeBinary bytes := by
  by_cases loses : LosesSign bytes
  · simp [copiedBinary, loses, loses.1]
  · simp [copiedBinary_eq_decodeBinary.2 loses, loses]

variable {used : Bool} {firstColumn lastColumn : Column} {field : String} {converted : Memory}
  {next : Int}

section

variable (carries : CarriesParm bind.memory parm value) (zero : bind.memory last = 0)
  (before : parm.value ≤ last)
include carries zero before

theorem parmText_eq_some_iff_readAs :
    bind.parmText last used parm = some text ↔
      ReadAs bind.memory parm.value used text value := by
  cases used with
  | false =>
    rw [Bind.parmText, if_neg Bool.false_ne_true, stringAt_eq_some_iff zero before]
    rfl
  | true =>
    rw [Bind.parmText]
    cases value with
    | none =>
      rw [copyBinaryParameter, show parm.length = -1 from carries]
      simp [ReadAs]
    | some bytes =>
      rw [copyBinaryParameter_of_holds carries.1 carries.2]
      simp [ReadAs, ← copiedBinary_eq_iff, eq_comm]

/-- `ReadRight` is exactly when a value comes out right. -/
theorem parmText_eq_some_iff {right : Bool} :
    bind.parmText last used parm = some (decodeParm right value) ↔
      ReadRight bind.memory parm.value used right value := by
  rw [parmText_eq_some_iff_readAs carries zero before]
  cases value with
  | none =>
    cases used with
    | false => exact spells_nil.trans (and_iff_right rfl).symm
    | true => exact iff_of_false (by simp [ReadAs]) fun read => Bool.noConfusion read.1
  | some bytes =>
    have holds := carries.2
    cases used with
    | false =>
      cases right with
      | false => exact holds.spells_iff
      | true =>
        rw [decodeParm, if_pos rfl, decodeBinary, ReadRight]
        split
        · rfl
        · exact holds.spells_iff
    | true =>
      simp only [ReadAs, some.injEq, exists_eq_left', ← copiedBinary_eq_iff]
      cases right with
      | false => exact eq_comm.trans copiedBinary_eq_bytes
      | true => exact eq_comm.trans copiedBinary_eq_decodeBinary

end

theorem decodeParm_eq_nil_iff : decodeParm binary value = [] ↔ value.getD [] = [] := by
  cases value with
  | none => exact iff_of_true rfl rfl
  | some bytes =>
    cases binary with
    | false => rfl
    | true =>
      rw [decodeParm, if_pos rfl, decodeBinary]
      split
      · refine iff_of_false (decimal_ne_nil _) ?_
        rintro rfl
        contradiction
      · rfl

/-! ## All values -/

/-- A placeholder gets its value. If its mark is lost, the portal has the empty string for it, and
the placeholders behind it get the values of earlier ones. -/
def GetsValue (query : List QueryParm) (parse : ParseMessage) (types : Nat → Int) (bind : Bind)
    (message : BindMessage) (position : Nat) (parm : QueryParm) : Prop :=
  let index := placeholdersBefore query position
  let curBindParm := markedBefore query position
  if isMarked query position parm then
    typeInRange (parmType parse types curBindParm) ∧
      (message.valueOf index).length ≤ ydbMaxStr ∧
      ∃ parm value, bind.parms[curBindParm]? = some parm ∧
        message.parms[curBindParm]? = some value ∧
        if curBindParm = index then
          ReadRight bind.memory parm.value (bind.isBinary position) (message.formatOf index) value
        else ReadAs bind.memory parm.value (bind.isBinary position) (message.valueOf index) value
  else (message.parms[index]?.getD none).getD [] = []

theorem exists_carriesParm {parms : List BindParm} {values : List (Option (List UInt8))}
    (carries : Forall₂ (CarriesParm memory) parms values) {index : Nat}
    (found : parms[index]? = some parm) :
    ∃ value, values[index]? = some value ∧ CarriesParm memory parm value := by
  induction carries generalizing index with
  | nil => cases found
  | cons first rest ih =>
    cases index with
    | zero =>
      obtain rfl := some.inj found
      exact ⟨_, rfl, first⟩
    | succ index => exact ih found

theorem setParm_eq_some_iff {other : List UInt8} :
    setParm other = some text ↔ other = text ∧ text.length ≤ ydbMaxStr := by
  rw [setParm, ite_none_right_eq_some, some.injEq, and_comm]
  refine and_congr_right fun same => ?_
  rw [same]

theorem bindParm_none_eq_some_iff {parms : List BindAttributes} {curParm curBindParm : Nat} :
    bindParm bind last parms curParm curBindParm none = some text ↔
      ∃ attributes, parms[curBindParm]? = some attributes ∧ typeInRange attributes.type ∧
        ∃ parm, bind.parms[curBindParm]? = some parm ∧
          bind.parmText last (bind.isBinary curParm) parm = some text ∧
            text.length ≤ ydbMaxStr := by
  simp only [bindParm, bind_eq_bind, bind_eq_some_iff, ite_none_right_eq_some, setParm_eq_some_iff]
  constructor
  · rintro ⟨attributes, found, inRange, parm, bound, other, read, rfl, short⟩
    exact ⟨attributes, found, inRange, parm, bound, read, short⟩
  · rintro ⟨attributes, found, inRange, parm, bound, read, short⟩
    exact ⟨attributes, found, inRange, parm, bound, text, read, rfl, short⟩

section

variable (prepares : Prepares parse types query parms)
include prepares

/-- A marked placeholder has a type of its own with the prepared statement. -/
theorem Prepares.exists_attributes {parm : QueryParm} (found : query[position]? = some parm)
    (marked : isMarked query position parm) :
    ∃ attributes, parms.parms[markedBefore query position]? = some attributes ∧
      attributes.type = parmType parse types (markedBefore query position) := by
  have isNone : (nodes query)[position]? = some none := by
    rw [nodes, getElem?_mapIdx, found, map_some, node, if_pos marked]
  have inside : markedBefore query position < (nodes query).countP Option.isNone := by
    obtain ⟨short, isNone⟩ := List.getElem?_eq_some_iff.1 isNone
    conv_rhs => rw [← List.take_append_drop position (nodes query)]
    rw [countP_append, drop_eq_getElem_cons short, isNone, countP_cons_of_pos rfl]
    exact Nat.lt_add_of_pos_right (Nat.succ_pos _)
  have type := congrArg (fun types => types[markedBefore query position]?) prepares.types
  rw [getElem?_map, getElem?_map, getElem?_range inside] at type
  exact map_eq_some_iff.1 type

/-- The literals of a query are always stored. -/
theorem bindParm_literal (found : query[position]? = some (.literal text)) (bind : Bind)
    (last : Int) :
    bindParm bind last parms.parms position (markedBefore query position)
      (node query position (.literal text)) = some text := by
  have short := prepares.short _ (mem_of_getElem? found)
  exact setParm_eq_some_iff.2 ⟨rfl, short⟩

variable (carries : bind.Carries message) (terminated : bind.Terminated last)
include carries terminated

/-- One step of the loop stores the right text. -/
theorem bindParm_eq_some_iff
    (found : query[position]? = some (.placeholder firstColumn lastColumn)) :
    bindParm bind last parms.parms position (markedBefore query position)
        (node query position (.placeholder firstColumn lastColumn)) =
        some (message.valueOf (placeholdersBefore query position)) ↔
      GetsValue query parse types bind message position (.placeholder firstColumn lastColumn) := by
  rw [node, GetsValue]
  by_cases marked : isMarked query position (.placeholder firstColumn lastColumn) = true
  · rw [if_pos marked, if_pos marked, bindParm_none_eq_some_iff]
    obtain ⟨attributes, attributesFound, type⟩ := prepares.exists_attributes found marked
    have values {parm : BindParm} {value : Option (List UInt8)}
        (parmFound : bind.parms[markedBefore query position]? = some parm)
        (valueFound : message.parms[markedBefore query position]? = some value) :
        bind.parmText last (bind.isBinary position) parm =
            some (message.valueOf (placeholdersBefore query position)) ↔
          if markedBefore query position = placeholdersBefore query position then
            ReadRight bind.memory parm.value (bind.isBinary position)
              (message.formatOf (placeholdersBefore query position)) value
          else ReadAs bind.memory parm.value (bind.isBinary position)
            (message.valueOf (placeholdersBefore query position)) value := by
      obtain ⟨other, otherFound, parmCarries⟩ := exists_carriesParm carries.parms parmFound
      obtain rfl := some.inj (otherFound.symm.trans valueFound)
      have before := terminated.parms parm (mem_of_getElem? parmFound)
      split
      case isTrue same =>
        rw [BindMessage.valueOf, ← same, valueFound]
        exact parmText_eq_some_iff parmCarries terminated.zero before
      case isFalse => exact parmText_eq_some_iff_readAs parmCarries terminated.zero before
    constructor
    · rintro ⟨other, otherFound, inRange, parm, parmFound, read, short⟩
      obtain rfl := some.inj (otherFound.symm.trans attributesFound)
      obtain ⟨value, valueFound, -⟩ := exists_carriesParm carries.parms parmFound
      exact ⟨type ▸ inRange, short, parm, value, parmFound, valueFound,
        (values parmFound valueFound).1 read⟩
    · rintro ⟨inRange, short, parm, value, parmFound, valueFound, read⟩
      exact ⟨attributes, attributesFound, type ▸ inRange, parm, parmFound,
        (values parmFound valueFound).2 read, short⟩
  · rw [if_neg marked, if_neg marked, ← decodeParm_eq_nil_iff]
    exact ⟨fun stored => (some.inj stored).symm, fun empty => congrArg some empty.symm⟩

/-- What is stored is decided at each parameter of the query. -/
theorem storesParms_iff_bindParm {prepared : ParmSession}
    (stored : prepared.prepared message.source = some parms)
    (counted : message.parms.length = query.countP QueryParm.isPlaceholder) :
    StoresParms query prepared bind last message ↔
      ∀ position parm, query[position]? = some parm →
        bindParm bind last parms.parms position (markedBefore query position)
          (node query position parm) = some (portalText query message position parm) := by
  rw [storesParms_iff_bindParms stored prepares counted carries terminated, bindParms_eq_some_iff,
    and_iff_right (by rw [nodes, length_mapIdx, length_mapIdx])]
  constructor
  · intro each position parm found
    have step := each position (node query position parm) (by
      rw [nodes, getElem?_mapIdx, found, map_some])
    rwa [getElem?_mapIdx, found, zero_add, zero_add] at step
  · intro each position parmNode isNode
    rw [nodes, getElem?_mapIdx] at isNode
    obtain ⟨parm, found, rfl⟩ := map_eq_some_iff.1 isNode
    rw [getElem?_mapIdx, found, zero_add, zero_add]
    exact each position parm found

end

/-! ## What `read_bind` hands over -/

theorem convertFormatCodes_frame (count : Nat) {address position : Int}
    (behind : address + 2 * count ≤ position)
    (done : convertFormatCodes field count memory address = .ok converted) :
    converted position = memory position := by
  induction count generalizing memory address with
  | zero =>
    obtain rfl := ok.inj done
    rfl
  | succ count ih =>
    rw [convertFormatCodes] at done
    split at done
    · cases done
    · rw [ih (by push_cast at behind; omega) done]
      exact swap16_of_ne (.inr (by omega))

theorem skipName_le (memory : Memory) (lastByte : Int) (fuel : Nat)
    (before : curPointer ≤ lastByte) : skipName memory lastByte fuel curPointer ≤ lastByte := by
  induction fuel generalizing curPointer with
  | zero => exact before
  | succ fuel ih =>
    rw [skipName]
    split
    · exact ih (by omega)
    · exact before

theorem readName_le (before : curPointer ≤ lastByte)
    (read : readName memory lastByte curPointer field = .ok next) : next ≤ lastByte := by
  have := skipName_le memory lastByte (lastByte - curPointer).toNat before
  simp only [readName] at read
  split at read
  · cases read
  · have := ok.inj read
    omega

theorem readParmFormats_frame {num : Int}
    (read : readParmFormats memory lastByte curPointer = .ok (converted, num)) :
    converted lastByte = memory lastByte := by
  simp only [readParmFormats] at read
  split at read
  · cases read
  split at read
  · cases read
  split at read
  · cases read
  · obtain ⟨other, done, same⟩ := ok_of_map_eq_ok read
    obtain ⟨rfl, -⟩ := Prod.mk.inj same
    exact convertFormatCodes_frame _ (by omega) done

theorem readResultFormats_frame {tail : BindTail}
    (read : readResultFormats memory lastByte curPointer = .ok tail) :
    tail.memory lastByte = memory lastByte := by
  simp only [readResultFormats] at read
  split at read
  · cases read
  split at read
  · split at read
    · cases read
    · obtain ⟨other, done, rfl⟩ := ok_of_map_eq_ok read
      exact convertFormatCodes_frame _ (by omega) done
  · obtain rfl := ok.inj read
    rfl

theorem readParms_value_le (count : Nat) {parms : List BindParm}
    (read : readParms memory lastByte count curPointer = .ok (parms, next)) :
    ∀ parm ∈ parms, parm.value ≤ lastByte := by
  induction count generalizing curPointer parms with
  | zero =>
    obtain ⟨rfl, -⟩ := Prod.mk.inj (ok.inj read)
    exact forall_mem_nil _
  | succ count ih =>
    rw [readParms] at read
    split at read
    · cases read
    · simp only at read
      split at read
      · cases read
      · obtain ⟨⟨others, end'⟩, rest, same⟩ := ok_of_map_eq_ok read
        obtain ⟨rfl, rfl⟩ := Prod.mk.inj same
        exact forall_mem_cons.2 ⟨by simp only; omega, ih rest⟩

theorem readHead_frame {head : BindHead} (nonneg : 0 ≤ lastByte)
    (read : readHead memory lastByte = .ok head) :
    head.memory lastByte = memory lastByte ∧ head.source ≤ lastByte := by
  obtain ⟨source, readSource, read⟩ := ok_of_bind_eq_ok read
  obtain ⟨curPointer, -, read⟩ := ok_of_bind_eq_ok read
  obtain ⟨⟨converted, num⟩, readFormats, read⟩ := ok_of_bind_eq_ok read
  obtain ⟨numParms, -, read⟩ := ok_of_bind_eq_ok read
  obtain rfl := ok.inj read
  exact ⟨readParmFormats_frame readFormats, readName_le nonneg readSource⟩

/-- The zeros behind a message stay there while it is read. -/
theorem terminated_of_readBind {type : UInt8} {length : Nat} {reply : BindReply}
    (zero : memory length = 0) (read : readBind type memory length = .ok reply) :
    reply.bind.Terminated length := by
  obtain ⟨-, head, parms, curPointer, tail, readHead, readParms, readTail, rfl⟩ :=
    readBind_eq_ok read
  obtain ⟨frame, source⟩ := readHead_frame (Int.natCast_nonneg _) readHead
  exact {
    zero := (readResultFormats_frame readTail).trans (frame.trans zero)
    dest := Int.natCast_nonneg _
    source := source
    parms := readParms_value_le _ readParms }

/-- A `Bind` as `read_bind` makes it of the data of a message. -/
theorem exists_bind (readable : message.Readable) :
    ∃ reply, readBind psqlBind (loaded message.encode fun _ => 0) message.encode.length =
        .ok reply ∧ reply.bind.Carries message ∧ reply.bind.Terminated message.encode.length := by
  have holds := loaded_holds message.encode fun _ => 0
  obtain ⟨holdsData, zero, -⟩ := holds_append.1 holds
  rw [Int.zero_add] at zero
  have whole : (loaded message.encode fun _ => 0).Holds 0 (message.encode ++ []) := by
    rwa [append_nil]
  obtain ⟨reply, read, carries, -⟩ :=
    readBind_of_holds readable whole (by rw [append_nil])
  exact ⟨reply, read, carries, terminated_of_readBind zero read⟩

theorem formatCode_eq_one (binary : Bool) : decide (formatCode binary = 1) = binary := by
  cases binary <;> rfl

/-- With more than one format code, a placeholder is read with the code at the number of the
parameter. -/
theorem Bind.Carries.isBinary_of_several (carries : bind.Carries message)
    (several : 1 < message.parmFormats.length)
    (found : message.parmFormats[position]? = some binary) : bind.isBinary position = binary := by
  rw [Bind.isBinary, carries.numParmFormatCodes, if_pos (by omega),
    carries.parmFormatCodes position binary found]
  exact formatCode_eq_one binary

theorem Bind.Carries.isBinary_of_one (carries : bind.Carries message)
    (one : message.parmFormats = [binary]) (position : Nat) : bind.isBinary position = binary := by
  have first := carries.parmFormatCodes 0 binary (by rw [one]; rfl)
  rw [Int.natCast_zero, Int.mul_zero, Int.add_zero] at first
  rw [Bind.isBinary, carries.numParmFormatCodes, one, length_singleton, first]
  exact formatCode_eq_one binary

theorem Bind.Carries.isBinary_of_none (carries : bind.Carries message)
    (none : message.parmFormats = []) (position : Nat) : bind.isBinary position = false := by
  rw [Bind.isBinary, carries.numParmFormatCodes, none, if_neg (by decide), if_neg (by decide)]

/-! ## The portal -/

/-- A session without statements. -/
def emptySession : ParmSession :=
  ⟨fun _ => none, fun _ => none⟩

/-- A Bind message without names that has these values. -/
def valuesMessage (formats : List Bool) (values : List (List UInt8))
    (codes : formats.length ≤ 1 ∨ formats.length = values.length)
    (few : values.length < 32768) (short : ∀ bytes ∈ values, bytes.length < 2147483648) :
    BindMessage where
  dest := []
  source := []
  parmFormats := formats
  parms := values.map some
  resultFormats := []
  dest_noNull := noParms.dest_noNull
  source_noNull := noParms.source_noNull
  parmFormats_count := by rwa [List.length_map]
  parms_count := by rwa [List.length_map]
  parms_short := short_map_some short
  resultFormats_count := noParms.resultFormats_count

/-- A single value, with or without a format code. -/
def oneValue (formats : List Bool) (bytes : List UInt8) (codes : formats.length ≤ 1)
    (short : bytes.length < 2147483648) : BindMessage :=
  valuesMessage formats [bytes] (.inl codes) (by rw [List.length_singleton]; decide)
    (List.forall_mem_singleton.2 short)

theorem readable_oneValue {formats : List Bool} {codes : formats.length ≤ 1}
    {short : bytes.length < 2147483648} : (oneValue formats bytes codes short).Readable :=
  ⟨by simp [oneValue, valuesMessage], codes⟩

/-- A portal has the right text for every parameter exactly if every placeholder gets its value. -/
theorem storesParms_iff_getsValue {session prepared : ParmSession} {parse : ParseMessage}
    {types : Nat → Int} {query : List QueryParm} {bind : Bind} {last : Int} {message : BindMessage}
    (parsed : handleParse session parse types query = some prepared)
    (named : message.source = parse.dest)
    (counted : message.parms.length = query.countP QueryParm.isPlaceholder)
    (carries : bind.Carries message) (terminated : bind.Terminated last) :
    StoresParms query prepared bind last message ↔
      ∀ position firstColumn lastColumn,
        query[position]? = some (.placeholder firstColumn lastColumn) →
        GetsValue query parse types bind message position
          (.placeholder firstColumn lastColumn) := by
  obtain ⟨parms, stored, prepares⟩ := prepares_of_handleParse parsed
  rw [← named] at stored
  rw [storesParms_iff_bindParm prepares carries terminated stored counted]
  constructor
  · intro each position firstColumn lastColumn found
    exact (bindParm_eq_some_iff prepares carries terminated found).1 (each position _ found)
  · intro gets position parm found
    cases parm with
    | literal text => exact bindParm_literal prepares found bind last
    | placeholder firstColumn lastColumn =>
      exact (bindParm_eq_some_iff prepares carries terminated found).2
        (gets position firstColumn lastColumn found)

/-- A byte in binary format behind a literal. -/
theorem storesParms_binaryByte :
    ∃ prepared reply, handleParse emptySession ⟨[], []⟩ (fun _ => 0)
        [.literal [49], .placeholder 0 0] = some prepared ∧
      readBind psqlBind (loaded (oneValue [true] [7] (by decide) (by decide)).encode fun _ => 0)
        (oneValue [true] [7] (by decide) (by decide)).encode.length = .ok reply ∧
      StoresParms [.literal [49], .placeholder 0 0] prepared reply.bind
        (oneValue [true] [7] (by decide) (by decide)).encode.length
        (oneValue [true] [7] (by decide) (by decide)) := by
  obtain ⟨reply, read, carries, terminated⟩ := exists_bind readable_oneValue
  refine ⟨_, reply, rfl, read,
    (storesParms_iff_getsValue rfl rfl rfl carries terminated).2 fun position => ?_⟩
  intro firstColumn lastColumn found
  match position, found with
  | 1, found =>
    obtain ⟨parm, parms, -, -, same⟩ := List.forall₂_cons_right_iff.1 carries.parms
    refine ⟨by decide, by decide, parm, some [7], by rw [same]; rfl, rfl, ?_⟩
    rw [carries.isBinary_of_one rfl]
    exact fun loses => absurd loses.1 (by decide)

/-! ## Values that come out wrong -/

/-- A query can be prepared, and a Bind message for it is read and then stored wrong. -/
def StoredWrong (query : List QueryParm) (message : BindMessage) : Prop :=
  ∃ prepared reply, handleParse emptySession ⟨[], []⟩ (fun _ => 0) query = some prepared ∧
    readBind psqlBind (loaded message.encode fun _ => 0) message.encode.length = .ok reply ∧
    ¬ StoresParms query prepared reply.bind message.encode.length message

theorem storedWrong_of_not_getsValue
    (parsed : (handleParse emptySession ⟨[], []⟩ (fun _ => 0) query).isSome)
    (readable : message.Readable) (named : message.source = [])
    (counted : message.parms.length = query.countP QueryParm.isPlaceholder)
    (found : query[position]? = some (.placeholder firstColumn lastColumn))
    (wrong : ∀ bind : Bind, bind.Carries message →
      ¬ GetsValue query ⟨[], []⟩ (fun _ => 0) bind message position
      (.placeholder firstColumn lastColumn)) :
    StoredWrong query message := by
  obtain ⟨prepared, parsed⟩ := isSome_iff_exists.1 parsed
  obtain ⟨reply, read, carries, terminated⟩ := exists_bind readable
  refine ⟨prepared, reply, parsed, read, fun stores => wrong reply.bind carries ?_⟩
  obtain ⟨parms, stored, prepares⟩ := prepares_of_handleParse parsed
  rw [← named] at stored
  rw [storesParms_iff_bindParm prepares carries terminated stored counted] at stores
  exact (bindParm_eq_some_iff prepares carries terminated found).1 (stores position _ found)

/-- A literal before two placeholders. -/
def literalFirst : List QueryParm :=
  [.literal [49], .placeholder 0 0, .placeholder 0 0]

/-- Sixteen literals before a placeholder. -/
def sixteenFirst : List QueryParm :=
  List.replicate 16 (.literal [49]) ++ [.placeholder 0 0]

/-- The first value is text and the second one binary. -/
def textAndBinary : BindMessage :=
  valuesMessage [false, true] [[55], [0, 7]] (by decide) (by decide) (by decide)

/-- The format code of another parameter, a lost mark, a null byte in a text and a negative integer
of two bytes. -/
theorem storedWrong_code_mark_null_sign :
    StoredWrong literalFirst textAndBinary ∧
      StoredWrong sixteenFirst (oneValue [] [55] (by decide) (by decide)) ∧
      StoredWrong [.placeholder 0 0] (oneValue [] [65, 0, 66] (by decide) (by decide)) ∧
      StoredWrong [.placeholder 0 0] (oneValue [true] [255, 255] (by decide) (by decide)) := by
  refine ⟨?_, ?_, ?_, ?_⟩
  · have readable : textAndBinary.Readable := ⟨by simp [textAndBinary, valuesMessage], by decide⟩
    refine storedWrong_of_not_getsValue rfl readable rfl rfl (show literalFirst[1]? = _ from rfl) ?_
    rintro bind carries ⟨-, -, parm, value, -, valueFound, read⟩
    obtain rfl : some [55] = value := some.inj valueFound
    rw [carries.isBinary_of_several (by decide) (show _ = some true from rfl)]
      at read
    exact Bool.noConfusion (show integerSized [55] = false from read)
  · refine storedWrong_of_not_getsValue rfl readable_oneValue rfl rfl
      (show sixteenFirst[16]? = _ from rfl) ?_
    intro bind carries gets
    exact cons_ne_nil 55 [] gets
  · refine storedWrong_of_not_getsValue rfl readable_oneValue rfl rfl
      (show [QueryParm.placeholder 0 0][0]? = _ from rfl) ?_
    rintro bind carries ⟨-, -, parm, value, -, valueFound, read⟩
    obtain rfl : some [65, 0, 66] = value := some.inj valueFound
    rw [carries.isBinary_of_none rfl] at read
    exact read.1 (by decide)
  · refine storedWrong_of_not_getsValue rfl readable_oneValue rfl rfl
      (show [QueryParm.placeholder 0 0][0]? = _ from rfl) ?_
    rintro bind carries ⟨-, -, parm, value, -, valueFound, read⟩
    obtain rfl : some [255, 255] = value := some.inj valueFound
    rw [carries.isBinary_of_one rfl] at read
    exact read ⟨.inl rfl, twosComplement_neg (by decide)⟩

end Octo.Rocto
