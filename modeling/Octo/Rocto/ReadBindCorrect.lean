import Octo.Rocto.ReadBindSections

/-!
# Acceptance of Bind messages

`read_bind` returns the fields of every message that has no NULL and no format code without a
parameter. It also accepts a message with bytes behind it and a message whose last number is
missing, and a negative length sends the pointer back. Apart from these it accepts exactly the
encodings of messages.
-/
namespace Octo.Rocto

open Octo.Foundation List Memory Except

variable {memory : Memory}
variable {formats : List Bool} {dest source : List UInt8}

/-! ## The sections together -/

/-- What is returned when all sections are accepted. -/
def assembled (head : BindHead) (parms : List BindParm) (curPointer : Int) (tail : BindTail) :
    BindReply :=
  ⟨⟨tail.memory, 0, head.source, head.numParmFormatCodes, head.parmFormatCodes, head.numParms,
    parms,
    tail.numResultColFormatCodes, curPointer + 2⟩, tail.reported⟩

variable {length count : Nat} {head : BindHead} {type : UInt8} {reply : BindReply}
    {message : BindMessage} {rest data : List UInt8} {converted : Memory}

theorem readBind_of_sections {parms : List BindParm} {curPointer : Int} {tail : BindTail}
    (headOk : readHead memory length = .ok head)
    (parmsOk : readParms head.memory length head.numParms.toNat head.curPointer =
      .ok (parms, curPointer))
    (tailOk : readResultFormats head.memory length curPointer = .ok tail) :
    readBind psqlBind memory length = .ok (assembled head parms curPointer tail) := by
  rw [readBind]
  simp only [headOk, parmsOk, tailOk, bind, Except.bind]
  rfl

theorem readBind_eq_ok (read : readBind type memory length = .ok reply) :
    type = psqlBind ∧ ∃ head parms curPointer tail, readHead memory length = .ok head ∧
      readParms head.memory length head.numParms.toNat head.curPointer = .ok (parms, curPointer) ∧
      readResultFormats head.memory length curPointer = .ok tail ∧
      reply = assembled head parms curPointer tail := by
  rw [readBind] at read
  split at read
  · cases read
  rename_i same
  obtain ⟨head, headOk, read⟩ := ok_of_bind_eq_ok read
  obtain ⟨⟨parms, curPointer⟩, parmsOk, read⟩ := ok_of_bind_eq_ok read
  obtain ⟨tail, tailOk, read⟩ := ok_of_bind_eq_ok read
  cases read
  exact ⟨not_not.1 same, head, parms, curPointer, tail, headOk, parmsOk, tailOk, rfl⟩

/-! ## Messages that are read -/

theorem exists_values {parms : List (Option (List UInt8))} (noNull : none ∉ parms) :
    ∃ values : List (List UInt8), parms = values.map some := by
  induction parms with
  | nil => exact ⟨[], rfl⟩
  | cons value parms ih =>
    rw [mem_cons, not_or] at noNull
    obtain ⟨values, rfl⟩ := ih noNull.2
    cases value with
    | none => exact absurd rfl noNull.1
    | some bytes => exact ⟨bytes :: values, rfl⟩

theorem flatMap_encodeParm_map_some (values : List (List UInt8)) :
    (values.map some).flatMap encodeParm = encodeValues values :=
  flatMap_map ..

theorem Converted.holds_before {address position : Int} {bytes : List UInt8}
    (isConverted : Converted memory converted address formats) (holds : memory.Holds position bytes)
    (before : position + bytes.length ≤ address) : converted.Holds position bytes :=
  holds.agree fun _ _ below => isConverted.outside _ (.inl (by omega))

theorem Converted.carries_before {address position : Int}
    {others : List Bool} (isConverted : Converted memory converted address formats)
    (carries : CarriesFormats memory position others)
    (before : position + 2 * others.length ≤ address) :
    CarriesFormats converted position others := by
  intro index binary found
  obtain ⟨inside, -⟩ := List.getElem?_eq_some_iff.1 found
  rw [← carries index binary found]
  exact native16At_agree (isConverted.outside _ (.inl (by omega)))
    (isConverted.outside _ (.inl (by omega)))

theorem BindMessage.Readable.validHead (readable : message.Readable) :
    ValidHead message.dest message.source message.parmFormats message.parms.length :=
  ⟨message.dest_noNull, message.source_noNull, readable.codes, message.parmFormats_count,
    message.parms_count⟩

theorem holds_dest (holds : memory.Holds 0 (encodeHead dest source formats count ++ rest)) :
    memory.Holds 0 (dest ++ [0]) ∧ memory.Holds (dest.length + 1) (source ++ [0]) := by
  rw [encodeHead_append] at holds
  have behind := holds_behind_name holds
  rw [append_cons dest] at holds
  rw [append_cons source, Int.zero_add] at behind
  exact ⟨(holds_append.1 holds).1, (holds_append.1 behind).1⟩

/-- The bytes behind the head, in the memory with the format codes turned round. -/
theorem HeadRead.holds (headRead : HeadRead memory dest source formats count head)
    (holds : memory.Holds 0 (encodeHead dest source formats count ++ rest)) :
    head.memory.Holds head.curPointer rest := by
  refine headRead.converted.holds_behind ?_ ?_
  · rw [headRead.curPointer, ← Int.zero_add (length _ : Int)]
    exact (holds_append.1 holds).2
  · rw [headRead.curPointer, headRead.parmFormatCodes, length_encodeHead]
    omega

theorem HeadRead.last (headRead : HeadRead memory dest source formats count head)
    (rest : List UInt8) :
    ((encodeHead dest source formats count ++ rest).length : Int) =
      head.curPointer + rest.length := by
  rw [length_append, headRead.curPointer]
  exact Int.natCast_add ..

section

variable {values : List (List UInt8)} (parms : message.parms = values.map some)
include parms

/-- The data of a message without a NULL, in the order of the sections. -/
theorem encode_append (rest : List UInt8) :
    message.encode ++ rest =
      encodeHead message.dest message.source message.parmFormats message.parms.length ++
        (encodeValues values ++ (encodeResultFormats message.resultFormats ++ rest)) := by
  rw [BindMessage.encode, append_assoc, append_assoc]
  conv_lhs => rw [parms, flatMap_encodeParm_map_some, ← parms]

theorem values_short : ∀ bytes ∈ values, bytes.length < 2147483648 := by
  intro bytes member
  exact message.parms_short (some bytes) (parms ▸ mem_map_of_mem member) bytes rfl

end

/-- A message that is read gives its fields, whatever stands behind it. -/
theorem readBind_of_holds (readable : message.Readable)
    (holds : memory.Holds 0 (message.encode ++ rest))
    (whole : length = (message.encode ++ rest).length) :
    ∃ reply, readBind psqlBind memory length = .ok reply ∧
      reply.bind.Carries message ∧ reply.reported = if rest = [] then [] else [.trailingChars] := by
  obtain ⟨values, parms⟩ := exists_values readable.noNull
  rw [encode_append parms] at holds whole
  obtain ⟨head, headOk, headRead⟩ := readHead_of_holds holds whole readable.validHead
  have behindHead := headRead.holds holds
  have last :=
    headRead.last (encodeValues values ++ (encodeResultFormats message.resultFormats ++ rest))
  rw [← whole] at last
  have parmsOk := readParms_append values 0 (values_short parms) behindHead last
  obtain ⟨valuesHold, behindValues⟩ := holds_append.1 behindHead
  obtain ⟨converted, tailOk, tailConverted⟩ := readResultFormats_of_holds
    message.resultFormats_count behindValues
    (show (length : Int) = _ by
      simp only [length_append] at last ⊢
      omega)
  have count : head.numParms.toNat = values.length + 0 := by
    rw [headRead.numParms, parms, length_map, Int.toNat_natCast, Nat.add_zero]
  rw [← count] at parmsOk
  obtain ⟨destHolds, sourceHolds⟩ := holds_dest holds
  have codesAddress := headRead.parmFormatCodes
  have cursor := headRead.curPointer
  rw [length_encodeHead] at cursor
  refine ⟨_, readBind_of_sections headOk parmsOk tailOk, ?_, rfl⟩
  constructor
  case dest =>
    change converted.Holds 0 _
    refine tailConverted.holds_before (headRead.converted.holds_before destHolds ?_) ?_ <;>
      rw [length_append, length_singleton] <;> omega
  case source =>
    change converted.Holds head.source _
    rw [headRead.sourceAddress]
    refine tailConverted.holds_before (headRead.converted.holds_before sourceHolds ?_) ?_ <;>
      rw [length_append, length_singleton] <;> omega
  case numParmFormatCodes => exact headRead.numParmFormatCodes
  case parmFormatCodes =>
    change CarriesFormats converted head.parmFormatCodes _
    exact tailConverted.carries_before headRead.converted.codes (by omega)
  case numParms => exact headRead.numParms
  case parms =>
    have kept : converted.Holds head.curPointer (encodeValues values ++ []) := by
      rw [append_nil]
      exact tailConverted.holds_before valuesHold (by omega)
    rw [parms, append_nil]
    exact carries_parmsAt kept
  case numResultColFormatCodes => rfl
  case resultColFormatCodes => exact tailConverted.codes

/-! ## Messages that are not read back -/

/-- The message with a number of result columns that is missing or cut is accepted. -/
theorem readBind_of_zeros (readable : message.Readable) (noResults : message.resultFormats = [])
    {cut : List UInt8} (short : cut = [0, 0] ∨ cut = [0]) (same : data ++ cut = message.encode)
    (holds : memory.Holds 0 (data ++ [0, 0])) (whole : length = data.length) :
    ∃ reply, readBind psqlBind memory length = .ok reply ∧ reply.reported ≠ [] := by
  obtain ⟨values, parms⟩ := exists_values readable.noNull
  have encoded := encode_append parms []
  rw [noResults, append_nil] at encoded
  -- The data is the head, the values and what is left of the number.
  obtain ⟨left, number, leftEq⟩ : ∃ left, left ++ cut = [0, 0] ∧ (left = [] ∨ left = [0]) := by
    obtain rfl | rfl := short
    · exact ⟨[], rfl, .inl rfl⟩
    · exact ⟨[0], rfl, .inr rfl⟩
  obtain rfl : data = encodeHead message.dest message.source message.parmFormats
      message.parms.length ++ (encodeValues values ++ left) := by
    refine append_cancel_right (same.trans ?_)
    rw [encoded, append_assoc, append_assoc, number]
    simp [encodeResultFormats, bytes16]
  rw [append_assoc, append_assoc] at holds
  have cutHolds : memory.Holds 0 (encodeHead message.dest message.source message.parmFormats
      message.parms.length ++ (encodeValues values ++ left)) := by
    rw [← append_assoc, ← append_assoc] at holds
    rw [← append_assoc]
    exact (holds_append.1 holds).1
  obtain ⟨head, headOk, headRead⟩ := readHead_of_holds cutHolds whole readable.validHead
  have last := headRead.last (encodeValues values ++ left)
  rw [← whole] at last
  have parmsOk := readParms_append values 0 (values_short parms) (headRead.holds cutHolds) last
  have count : head.numParms.toNat = values.length + 0 := by
    rw [headRead.numParms, parms, length_map, Int.toNat_natCast, Nat.add_zero]
  rw [← count] at parmsOk
  have zeros := (holds_append.1 (headRead.holds holds)).2
  obtain ⟨first, second⟩ : head.memory (head.curPointer + (encodeValues values).length) = 0 ∧
      head.memory (head.curPointer + (encodeValues values).length + 1) = 0 := by
    obtain rfl | rfl := leftEq <;> exact ⟨zeros.1, zeros.2.1⟩
  have leftShort : left.length < 2 := by
    obtain rfl | rfl := leftEq <;> decide
  have tailOk := readResultFormats_of_zeros first second (show (length : Int) < _ by
    simp only [length_append] at last
    omega)
  exact ⟨_, readBind_of_sections headOk parmsOk tailOk, cons_ne_nil _ _⟩

/-- A format code without a parameter is an error. -/
theorem readBind_of_loneFormatCode (lone : message.parms.length < message.parmFormats.length)
    (holds : memory.Holds 0 message.encode) (reply : BindReply) :
    readBind psqlBind memory message.encode.length ≠ .ok reply := by
  intro read
  obtain ⟨-, head, parms, curPointer, tail, headOk, -⟩ := readBind_eq_ok read
  have small : message.parmFormats.length < 32768 := by
    have := message.parmFormats_count
    omega
  have refused : readHead memory message.encode.length = _ :=
    readHead_of_tooMany holds rfl message.dest_noNull message.source_noNull small lone
  rw [headOk] at refused
  cases refused

/-- A negative length is among the parameters of whatever is accepted. -/
theorem exists_negative_of_readBind (negative : HasNegativeLength data)
    (holds : memory.Holds 0 data) (read : readBind type memory data.length = .ok reply) :
    ∃ parm ∈ reply.bind.parms, parm.length < 0 := by
  obtain ⟨dest, source, formats, count, valid, values, first, second, third, fourth, rest, fewer,
    short, sign, rfl⟩ := negative
  obtain ⟨-, head, parms, curPointer, tail, headOk, parmsOk, -, rfl⟩ := readBind_eq_ok read
  obtain ⟨other, otherOk, headRead⟩ := readHead_of_holds holds rfl valid
  obtain rfl : other = head := ok.inj (otherOk.symm.trans headOk)
  have behind := headRead.holds holds
  rw [headRead.numParms] at parmsOk
  exact exists_negative_of_readParms fewer short sign behind
    (headRead.last _) parmsOk

/-- The data of a message around its first NULL. -/
theorem encode_of_null (null : none ∈ message.parms) :
    ∃ values others, message.parms = values.map some ++ none :: others ∧
      (∀ bytes ∈ values, bytes.length < 2147483648) ∧
      ValidHead message.dest message.source message.parmFormats message.parms.length ∧
      message.encode =
        encodeHead message.dest message.source message.parmFormats message.parms.length ++
          (encodeValues values ++ ([255, 255, 255, 255] ++ (others.flatMap encodeParm ++
            encodeResultFormats message.resultFormats))) := by
  obtain ⟨before, others, split, noNull⟩ := eq_append_cons_of_mem null
  obtain ⟨values, rfl⟩ := exists_values noNull
  refine ⟨values, others, split, ?_, ?_, ?_⟩
  · intro bytes member
    refine message.parms_short (some bytes) ?_ bytes rfl
    rw [split]
    exact mem_append_left _ (mem_map_of_mem member)
  · refine ⟨message.dest_noNull, message.source_noNull, ?_, message.parmFormats_count,
      message.parms_count⟩
    have := length_pos_of_mem null
    have := message.parmFormats_count
    omega
  · have bytes : message.parms.flatMap encodeParm =
        encodeValues values ++ ([255, 255, 255, 255] ++ others.flatMap encodeParm) := by
      rw [split, flatMap_append, flatMap_encodeParm_map_some]
      rfl
    rw [BindMessage.encode, bytes]
    simp

/-- A message with a NULL does not come back. -/
theorem not_carries_of_null (null : none ∈ message.parms) (holds : memory.Holds 0 message.encode)
    (read : readBind type memory message.encode.length = .ok reply) :
    ¬ reply.bind.Carries message := by
  intro carries
  obtain ⟨-, head, parms, curPointer, tail, headOk, parmsOk, tailOk, rfl⟩ := readBind_eq_ok read
  obtain ⟨values, others, split, short, valid, encoded⟩ := encode_of_null null
  rw [encoded] at holds headOk parmsOk tailOk
  obtain ⟨other, otherOk, headRead⟩ := readHead_of_holds holds rfl valid
  obtain rfl : other = head := ok.inj (otherOk.symm.trans headOk)
  have behind := headRead.holds holds
  have count : other.numParms.toNat = values.length + (others.length + 1) := by
    rw [headRead.numParms, Int.toNat_natCast, split, length_append, length_map, length_cons]
  rw [count, readParms_append values _ short behind (headRead.last _)] at parmsOk
  obtain ⟨⟨more, next⟩, moreOk, same⟩ := ok_of_map_eq_ok parmsOk
  obtain ⟨rfl, rfl⟩ := Prod.mk.inj same
  have carriesParms := carries.parms
  rw [split] at carriesParms
  have carriesRest := forall₂_drop_append _ _ _ carriesParms
  rw [length_map, show values.length = (parmsAt other.curPointer values).length from
    (length_parmsAt ..).symm] at carriesRest
  have onNull := null_of_readParms (none :: others) (.inr ⟨rfl, rfl⟩)
    (fun _ above below => absurd above (Int.not_le.2 below)) (holds_append.1 behind).2 moreOk
    (show Forall₂ _ more _ from drop_left .. ▸ carriesRest)
  have negative : other.memory.int16At next < 0 :=
    int16_neg_of_high (by rw [onNull]; decide)
  rw [readResultFormats, if_pos negative] at tailOk
  cases tailOk

theorem short_map_some {values : List (List UInt8)}
    (short : ∀ bytes ∈ values, bytes.length < 2147483648) :
    ∀ value ∈ values.map some, ∀ bytes ∈ value, bytes.length < 2147483648 := by
  simpa using short

/-- The message without a NULL that has these fields. -/
def plainMessage {dest source : List UInt8} {formats results : List Bool}
    {values : List (List UInt8)}
    (valid : ValidHead dest source formats values.length)
    (short : ∀ bytes ∈ values, bytes.length < 2147483648) (small : results.length < 32768) :
    BindMessage where
  dest := dest
  source := source
  parmFormats := formats
  parms := values.map some
  resultFormats := results
  dest_noNull := valid.dest_noNull
  source_noNull := valid.source_noNull
  parmFormats_count := by simpa using valid.codes_all
  parms_count := by simpa using valid.small
  parms_short := short_map_some short
  resultFormats_count := small

section

variable {results : List Bool} {values : List (List UInt8)}
variable (valid : ValidHead dest source formats values.length)
variable (short : ∀ bytes ∈ values, bytes.length < 2147483648) (small : results.length < 32768)

theorem readable_plainMessage : (plainMessage valid short small).Readable where
  noNull := by simp [plainMessage]
  codes := by simpa [plainMessage] using valid.codes

theorem encode_plainMessage_append (rest : List UInt8) :
    (plainMessage valid short small).encode ++ rest =
      encodeHead dest source formats values.length ++
        (encodeValues values ++ (encodeResultFormats results ++ rest)) := by
  have parms : (plainMessage valid short small).parms = values.map some := rfl
  rw [encode_append parms, parms, length_map]
  rfl

end

/-- What is accepted is a message, possibly with bytes behind it or without its last number, or has
a negative length. -/
theorem cases_of_readBind (holds : memory.Holds 0 data)
    (read : readBind type memory data.length = .ok reply) :
    HasNegativeLength data ∨ LacksResultFormats data ∨
      ∃ message : BindMessage, message.Readable ∧ ∃ rest, data = message.encode ++ rest := by
  obtain ⟨-, head, parms, curPointer, tail, headOk, parmsOk, tailOk, rfl⟩ := readBind_eq_ok read
  obtain ⟨dest, source, formats, count, behindHead, valid, rfl, headRead⟩ :=
    readHead_eq_ok holds headOk
  have behind := headRead.holds holds
  have last := headRead.last behindHead
  rw [headRead.numParms] at parmsOk
  obtain ⟨values, first, second, third, fourth, rest, fewer, short, sign, rfl⟩ |
      ⟨values, rest, all, short, rfl, -, rfl⟩ := readParms_eq_ok behind last count parmsOk
  · exact .inl ⟨dest, source, formats, count, valid, values, first, second, third, fourth, rest,
      fewer, short, sign, rfl⟩
  · right
    subst all
    have inner : (encodeValues values ++ rest).length =
        (encodeValues values).length + rest.length :=
      length_append
    obtain ⟨results, tailRest, rfl, small⟩ | missing := readResultFormats_eq_ok
        (holds_append.1 behind).2 (by omega) tailOk
    · exact .inr ⟨plainMessage valid short small, readable_plainMessage valid short small, tailRest,
        (encode_plainMessage_append valid short small tailRest).symm⟩
    · left
      have none : ([] : List Bool).length < 32768 := by decide
      have encoded := encode_plainMessage_append valid short none []
      refine ⟨plainMessage valid short none, readable_plainMessage valid short none, rfl, ?_⟩
      rw [append_nil] at encoded
      rw [encoded]
      obtain rfl | rfl := missing
      · left
        simp [encodeResultFormats, bytes16]
      · right
        simp [encodeResultFormats, bytes16]

/-! ## Acceptance -/

/-- The data of a message of some type is a Bind message. -/
def Encodes (type : UInt8) (data : List UInt8) (message : BindMessage) : Prop :=
  type = psqlBind ∧ data = message.encode

/-- `read_bind` does what the protocol asks for, whatever bytes stand around the data: it returns
the fields of a message and refuses everything else. -/
def ReadsExactly (type : UInt8) (data : List UInt8) : Prop :=
  ∀ memory : Memory, memory.Holds 0 data →
    (∀ message, Encodes type data message → ∃ reply,
      readBind type memory data.length = .ok reply ∧ reply.bind.Carries message ∧
        reply.reported = []) ∧
    ((¬ ∃ message, Encodes type data message) → ∃ error,
      readBind type memory data.length = .error error)

/-- The messages that are read exactly: no length is negative, no format code is without a
parameter, no bytes follow and the last number is there. -/
structure ExactlyReadable (data : List UInt8) : Prop where
  noNegativeLength : ¬ HasNegativeLength data
  noLoneFormatCode : ¬ HasLoneFormatCode data
  noTrailingBytes : ¬ HasTrailingBytes data
  resultFormats : ¬ LacksResultFormats data

theorem hasNegativeLength_of_null (null : none ∈ message.parms) :
    HasNegativeLength message.encode := by
  obtain ⟨values, others, split, short, valid, encoded⟩ := encode_of_null null
  refine ⟨_, _, _, _, valid, values, 255, 255, 255, 255, _, ?_, short, by simp [int32], encoded⟩
  rw [split, length_append, length_map, length_cons]
  omega

theorem readsExactly_of_exactlyReadable (asked : type = psqlBind → ExactlyReadable data) :
    ReadsExactly type data := by
  intro memory holds
  constructor
  · rintro message ⟨rfl, rfl⟩
    have exactly := asked rfl
    have readable : message.Readable := by
      constructor
      · exact fun null => exactly.noNegativeLength (hasNegativeLength_of_null null)
      · exact Nat.le_of_not_lt fun lone => exactly.noLoneFormatCode ⟨message, lone, rfl⟩
    have whole : memory.Holds 0 (message.encode ++ []) := by rwa [append_nil]
    exact readBind_of_holds readable whole (by rw [append_nil])
  · intro noMessage
    cases read : readBind type memory data.length with
    | error error => exact ⟨error, rfl⟩
    | ok reply =>
      exfalso
      have exactly := asked (readBind_eq_ok read).1
      obtain negative | lacks | ⟨message, readable, rest, rfl⟩ := cases_of_readBind holds read
      · exact exactly.noNegativeLength negative
      · exact exactly.resultFormats lacks
      · by_cases empty : rest = []
        · subst empty
          exact noMessage ⟨message, (readBind_eq_ok read).1, append_nil _⟩
        · exact exactly.noTrailingBytes ⟨message, readable, rest, empty, rfl⟩

theorem loaded_holds (data : List UInt8) (around : Memory) :
    (loaded data around).Holds 0 (data ++ [0, 0]) := by
  refine holds_of_getElem? fun index byte found => ?_
  have inside := (List.getElem?_eq_some_iff.1 found).1
  rw [Int.zero_add, loaded]
  by_cases isData : index < data.length
  · rw [getElem?_append_left isData] at found
    rw [if_pos ⟨by omega, by omega⟩, Int.toNat_natCast, found, Option.getD_some]
  · rw [getElem?_append_right (by omega)] at found
    rw [if_neg (by omega), if_pos ⟨by omega, by simp at inside; omega⟩]
    match shifted : index - data.length, found with
    | 0, found => simpa using found
    | 1, found => simpa using found

theorem length_nonneg_of_carries {parms : List BindParm} {values : List (Option (List UInt8))}
    (noNull : none ∉ values) (carries : Forall₂ (CarriesParm memory) parms values) :
    ∀ parm ∈ parms, 0 ≤ parm.length := by
  induction carries with
  | nil => exact forall_mem_nil _
  | @cons parm value parms values first rest ih =>
    rw [mem_cons, not_or] at noNull
    refine forall_mem_cons.2 ⟨?_, ih noNull.2⟩
    cases value with
    | none => exact absurd rfl noNull.1
    | some bytes =>
      rw [first.1]
      exact Int.natCast_nonneg _

/-- A Bind message with an error in it that `read_bind` does not find. -/
theorem not_readsExactly_of_accepted (accepted : ∃ memory : Memory, memory.Holds 0 data ∧
      ∃ reply, readBind psqlBind memory data.length = .ok reply ∧ reply.reported ≠ []) :
    ¬ ReadsExactly psqlBind data := by
  intro exactly
  obtain ⟨memory, holds, reply, read, reported⟩ := accepted
  obtain ⟨fields, refused⟩ := exactly memory holds
  by_cases isMessage : ∃ message, Encodes psqlBind data message
  · obtain ⟨message, encodes⟩ := isMessage
    obtain ⟨other, otherRead, -, noReport⟩ := fields message encodes
    obtain rfl : other = reply := ok.inj (otherRead.symm.trans read)
    exact reported noReport
  · obtain ⟨error, failed⟩ := refused isMessage
    rw [read] at failed
    cases failed

/-- A Bind message is read exactly if it has no negative length, no format code without a parameter,
no bytes behind it and its last number. If one of these does not hold, it is not read exactly,
unless it has a negative length and is not the encoding of a message. -/
theorem readsExactly_exactlyReadable (type : UInt8) (data : List UInt8) :
    ((type = psqlBind → ExactlyReadable data) → ReadsExactly type data) ∧
      (ReadsExactly type data → type = psqlBind → ExactlyReadable data ∨
        HasNegativeLength data ∧ ¬ ∃ message, Encodes type data message) := by
  refine ⟨readsExactly_of_exactlyReadable, ?_⟩
  rintro exactly rfl
  have holds := loaded_holds data fun _ => 0
  have holdsData := (holds_append.1 holds).1
  by_cases other : HasNegativeLength data ∧ ¬ ∃ message, Encodes psqlBind data message
  · exact .inr other
  · left
    constructor
    case noNegativeLength =>
      intro negative
      obtain ⟨message, -, rfl⟩ := not_not.1 (not_and.1 other negative)
      obtain ⟨reply, read, carries, -⟩ := (exactly _ holdsData).1 message ⟨rfl, rfl⟩
      by_cases null : none ∈ message.parms
      · exact not_carries_of_null null holdsData read carries
      · obtain ⟨parm, member, below⟩ := exists_negative_of_readBind negative holdsData read
        exact absurd (length_nonneg_of_carries null carries.parms parm member) (Int.not_le.2 below)
    case noLoneFormatCode =>
      rintro ⟨message, lone, rfl⟩
      obtain ⟨reply, read, -⟩ := (exactly _ holdsData).1 message ⟨rfl, rfl⟩
      exact readBind_of_loneFormatCode lone holdsData reply read
    case noTrailingBytes =>
      rintro ⟨message, readable, rest, nonempty, rfl⟩
      obtain ⟨reply, read, -, reported⟩ := readBind_of_holds readable holdsData rfl
      rw [if_neg nonempty] at reported
      exact not_readsExactly_of_accepted
        ⟨_, holdsData, reply, read, reported ▸ cons_ne_nil _ _⟩ exactly
    case resultFormats =>
      rintro ⟨message, readable, noResults, same⟩
      obtain ⟨cut, short, same⟩ : ∃ cut : List UInt8, (cut = [0, 0] ∨ cut = [0]) ∧
          data ++ cut = message.encode :=
        same.elim (fun same => ⟨_, .inl rfl, same⟩) fun same => ⟨_, .inr rfl, same⟩
      obtain ⟨reply, read, reported⟩ := readBind_of_zeros readable noResults short same holds rfl
      exact not_readsExactly_of_accepted ⟨_, holdsData, reply, read, reported⟩ exactly

/-- A message with two empty names and these parameters, and nothing else. -/
def nameless (parms : List (Option (List UInt8))) (count : parms.length < 32768)
    (short : ∀ value ∈ parms, ∀ bytes ∈ value, bytes.length < 2147483648) : BindMessage where
  dest := []
  source := []
  parmFormats := []
  parms := parms
  resultFormats := []
  dest_noNull := List.not_mem_nil
  source_noNull := List.not_mem_nil
  parmFormats_count := .inl (Nat.zero_le 1)
  parms_count := count
  parms_short := short
  resultFormats_count := by decide

/-- A message with a NULL as its only parameter. -/
def oneNull : BindMessage :=
  nameless [none] (by decide) (by simp)

/-- A message without parameters. -/
def noParms : BindMessage :=
  nameless [] (by decide) (by simp)

/-- A message with a NULL does not come back, and a byte behind a message and a missing number are
accepted. -/
theorem not_readsExactly_null_trailing_cut :
    ¬ ReadsExactly psqlBind oneNull.encode ∧ ¬ ReadsExactly psqlBind (noParms.encode ++ [9]) ∧
      ¬ ReadsExactly psqlBind [0, 0, 0, 0, 0, 0] := by
  have readable : noParms.Readable := ⟨not_mem_nil, Nat.le_refl 0⟩
  refine ⟨fun exactly => ?_, ?_, ?_⟩
  · have holds := (holds_append.1 (loaded_holds oneNull.encode fun _ => 0)).1
    obtain ⟨reply, read, carries, -⟩ := (exactly _ holds).1 oneNull ⟨rfl, rfl⟩
    exact not_carries_of_null (mem_singleton_self none) holds read carries
  · have holds := (holds_append.1 (loaded_holds (noParms.encode ++ [9]) fun _ => 0)).1
    obtain ⟨reply, read, -, reported⟩ := readBind_of_holds readable holds rfl
    exact not_readsExactly_of_accepted
      ⟨_, holds, reply, read, reported ▸ cons_ne_nil _ _⟩
  · have holds := loaded_holds [0, 0, 0, 0, 0, 0] fun _ => 0
    obtain ⟨reply, read, reported⟩ := readBind_of_zeros readable rfl (.inl rfl) rfl holds rfl
    exact not_readsExactly_of_accepted
      ⟨_, (holds_append.1 holds).1, reply, read, reported⟩

end Octo.Rocto
