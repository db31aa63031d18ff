import Octo.Foundation.Memory

/-!
# Reading a Bind message

`read_bind` copies a message behind a zeroed `Bind` and walks over its data with one pointer.
Addresses are counted from the beginning of the data. The pointer is moved by the lengths that the
message gives, also by a negative one, so it can come to lie before the data, and what it reads
there depends on the memory around.
-/
namespace Octo.Rocto

open Octo.Foundation

/-! ## The message in memory -/

/-- The errors that `read_bind` reports. -/
inductive BindError where
  | invalidMessageType (type : UInt8)
  | missingNull (field : String)
  | invalidNumber (field : String) (number : Int)
  | missingData (field : String)
  | invalidFormatCode (field : String) (code : Int)
  | tooManyValues (field : String)
  | tooFewValues (field : String)
  | trailingChars
deriving DecidableEq, Repr

/-- `BindParm`: a length and the address of the value. -/
structure BindParm where
  length : Int
  value : Int
deriving DecidableEq, Repr

/-- `Bind`, with the memory that its pointers point into. -/
structure Bind where
  memory : Memory
  dest : Int
  source : Int
  numParmFormatCodes : Int
  parmFormatCodes : Int
  numParms : Int
  parms : List BindParm
  numResultColFormatCodes : Int
  resultColFormatCodes : Int

/-- What `read_bind` returns, and whether it has reported trailing characters. -/
structure BindReply where
  bind : Bind
  reported : List BindError

/-- `PSQL_Bind`. -/
def psqlBind : UInt8 :=
  66

/-- The memory behind `malloc`, `memset` and `memcpy`: the data, and zeros for the four bytes of the
length that are counted twice. -/
def loaded (data : List UInt8) (around : Memory) : Memory :=
  fun address =>
    if 0 ≤ address ∧ address < data.length then data[address.toNat]?.getD 0
    else if data.length ≤ address ∧ address < data.length + 4 then 0
    else around address

/-! ## The sections of the message -/

/-- The loop that looks for the end of a name. -/
def skipName (memory : Memory) (lastByte : Int) : Nat → Int → Int
  | 0, curPointer => curPointer
  | fuel + 1, curPointer =>
    if curPointer < lastByte ∧ memory curPointer ≠ 0 then
      skipName memory lastByte fuel (curPointer + 1)
    else curPointer

/-- A name and the address behind its null terminator. -/
def readName (memory : Memory) (lastByte curPointer : Int) (field : String) :
    Except BindError Int :=
  let ended := skipName memory lastByte (lastByte - curPointer).toNat curPointer
  if ended = lastByte ∨ memory ended ≠ 0 then .error (.missingNull field) else .ok (ended + 1)

/-- The loop over format codes: each is turned round in its place and tested. -/
def convertFormatCodes (field : String) : Nat → Memory → Int → Except BindError Memory
  | 0, memory, _ => .ok memory
  | count + 1, memory, address =>
    if memory.int16At address ≠ 0 ∧ memory.int16At address ≠ 1 then
      .error (.invalidFormatCode field (memory.int16At address))
    else convertFormatCodes field count (memory.swap16 address) (address + 2)

/-- The format codes of the parameters: the memory with the codes turned round, and their number,
which is read before the pointer is tested. -/
def readParmFormats (memory : Memory) (lastByte curPointer : Int) :
    Except BindError (Memory × Int) :=
  let numParmFormatCodes := memory.int16At curPointer
  if numParmFormatCodes < 0 then
    .error (.invalidNumber "parameter format codes" numParmFormatCodes)
  else if curPointer + 2 > lastByte then
    .error (.missingData "number of parameter format codes")
  else if curPointer + 2 + numParmFormatCodes * 2 > lastByte then
    .error (.missingData "parameter format codes")
  else
    (convertFormatCodes "parameter" numParmFormatCodes.toNat memory (curPointer + 2)).map
      fun memory => (memory, numParmFormatCodes)

/-- The number of the parameters, which has to go with the number of their format codes. -/
def readNumParms (memory : Memory) (lastByte curPointer numParmFormatCodes : Int) :
    Except BindError Int :=
  let numParms := memory.int16At curPointer
  if numParms < 0 then .error (.invalidNumber "parameters" numParms)
  else if numParmFormatCodes > numParms then .error (.tooManyValues "parameter format codes")
  else if numParmFormatCodes > 1 ∧ numParmFormatCodes ≠ numParms then
    .error (.tooFewValues "parameter format codes")
  else if curPointer + 2 > lastByte then .error (.missingData "parameters")
  else .ok numParms

/-- What is read before the parameters. -/
structure BindHead where
  memory : Memory
  source : Int
  numParmFormatCodes : Int
  parmFormatCodes : Int
  numParms : Int
  curPointer : Int

/-- The names, the format codes and the number of the parameters. -/
def readHead (memory : Memory) (lastByte : Int) : Except BindError BindHead := do
  let source ← readName memory lastByte 0 "destination"
  let curPointer ← readName memory lastByte source "source"
  let (memory, numParmFormatCodes) ← readParmFormats memory lastByte curPointer
  let behindCodes := curPointer + 2 + numParmFormatCodes * 2
  let numParms ← readNumParms memory lastByte behindCodes numParmFormatCodes
  return ⟨memory, source, numParmFormatCodes, curPointer + 2, numParms, behindCodes + 2⟩

/-- The loop over the parameters. The length is added to the pointer as it is. -/
def readParms (memory : Memory) (lastByte : Int) :
    Nat → Int → Except BindError (List BindParm × Int)
  | 0, curPointer => .ok ([], curPointer)
  | count + 1, curPointer =>
    if curPointer + 4 > lastByte then .error (.missingData "parameters")
    else
      let length := memory.int32At curPointer
      if curPointer + 4 + length > lastByte then .error (.missingData "parameters")
      else
        (readParms memory lastByte count (curPointer + 4 + length)).map fun read =>
          (⟨length, curPointer + 4⟩ :: read.1, read.2)

/-- What is read behind the parameters. -/
structure BindTail where
  memory : Memory
  numResultColFormatCodes : Int
  reported : List BindError

/-- The result column format codes. The pointer is tested only when there are some, and characters
behind them are reported but accepted. -/
def readResultFormats (memory : Memory) (lastByte curPointer : Int) : Except BindError BindTail :=
  let numResultColFormatCodes := memory.int16At curPointer
  let behindCodes := curPointer + 2 + numResultColFormatCodes * 2
  let reported := if behindCodes ≠ lastByte then [.trailingChars] else []
  if numResultColFormatCodes < 0 then
    .error (.invalidNumber "result column format codes" numResultColFormatCodes)
  else if numResultColFormatCodes > 0 then
    if behindCodes > lastByte then .error (.missingData "result column format codes")
    else
      (convertFormatCodes "result column" numResultColFormatCodes.toNat memory (curPointer + 2)).map
        fun memory => ⟨memory, numResultColFormatCodes, reported⟩
  else .ok ⟨memory, numResultColFormatCodes, reported⟩

/-- `read_bind`, for a message of some type with so many bytes of data. -/
def readBind (type : UInt8) (memory : Memory) (length : Nat) : Except BindError BindReply :=
  if type ≠ psqlBind then .error (.invalidMessageType type)
  else do
    let head ← readHead memory length
    let (parms, curPointer) ← readParms head.memory length head.numParms.toNat head.curPointer
    let tail ← readResultFormats head.memory length curPointer
    return ⟨⟨tail.memory, 0, head.source, head.numParmFormatCodes, head.parmFormatCodes,
      head.numParms, parms, tail.numResultColFormatCodes, curPointer + 2⟩, tail.reported⟩

end Octo.Rocto
