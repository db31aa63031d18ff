import Octo.Rocto.RowLimit

/-!
# Data rows

`make_data_row` builds the message that carries one row of a result. A first pass adds up the size
of the message and a second pass writes the columns, each behind its length. A column in binary
format is counted with the size of its type when the type has one, but only an integer is written
with it. The reader `read_data_row` walks over the columns by their lengths, and NULL has length -1.
-/
namespace Octo.Rocto

open Octo.Foundation

/-- The types of columns, `PSQL_TypeOid`. -/
inductive TypeOid
  | bool
  | int8
  | int2
  | int4
  | unknown
  | varchar
  | numeric
  | date
  | time
  | timetz
  | timestamp
  | timestamptz
deriving DecidableEq, Repr

/-- `get_type_size_from_psql_type`. A negative size says that the length varies. -/
def getTypeSize : TypeOid → Int
  | .int4 => 4
  | .numeric => -1
  | .varchar => -1
  | .unknown => -2
  | .bool => 1
  | .date => 4
  | .time => 8
  | .timetz => 12
  | .timestamp => 8
  | .timestamptz => 8
  | .int8 => -2
  | .int2 => -2

/-- `DataRowParm` with the type of its column. No value is NULL, whose length is `PSQL_NULL`. -/
structure DataRowParm where
  isBinary : Bool
  columnType : TypeOid
  value : Option (List UInt8)
deriving DecidableEq, Repr

/-- The parameters of `make_data_row`. The number of columns is an `int16_t` and the length of a
value is an `int32_t`. -/
structure DataRowParms where
  parms : List DataRowParm
  count_lt : parms.length < 32768
  length_lt : ∀ parm ∈ parms, ∀ bytes ∈ parm.value, bytes.length < 2147483648

/-! ## Building the message -/

/-- The length of a value. NULL takes no bytes. -/
def DataRowParm.length (parm : DataRowParm) : Int :=
  (parm.value.getD []).length

/-- What the first pass adds for a column. -/
def DataRowParm.counted (parm : DataRowParm) : Int :=
  (if !parm.isBinary then parm.length
    else if 0 > getTypeSize parm.columnType then parm.length
    else getTypeSize parm.columnType) + 4

/-- An integer in four bytes. -/
def int32Bytes (number : Int) : List UInt8 :=
  bytes32 (number % 4294967296).toNat

/-- `PSQL_NULL` in four bytes. -/
def nullLength : List UInt8 :=
  int32Bytes (-1)

/-- `COPY_TEXT_PARM`. -/
def copyTextParm : Option (List UInt8) → List UInt8
  | none => nullLength
  | some bytes => bytes32 bytes.length ++ bytes

/-- `INT32_TO_STRING_MAX`. -/
def int32ToStringMax : Nat := 12

/-- The second pass for a column. A number that is no `int32_t` ends the function. There is no
result either for a text that does not fit into `int_buffer`. -/
def DataRowParm.write (parm : DataRowParm) : Option (List UInt8) :=
  if !parm.isBinary then some (copyTextParm parm.value)
  else
    match parm.columnType, parm.value with
    | .int4, none => some nullLength
    | .int4, some bytes =>
      let number := strtol bytes
      if bytes.length < int32ToStringMax ∧ -2147483648 ≤ number ∧ number ≤ 2147483647 then
        some (int32Bytes 4 ++ int32Bytes number)
      else none
    | _, value => some (copyTextParm value)

/-- The message: its length field, the number of columns and the bytes written behind it. The length
is an `int32_t`, which the columns of a row, being parts of one M string, do not fill. -/
structure DataRow where
  length : Int
  numColumns : Nat
  data : List UInt8
deriving DecidableEq, Repr

/-- `make_data_row`. -/
def makeDataRow (row : DataRowParms) : Option DataRow := do
  let columns ← row.parms.mapM DataRowParm.write
  some ⟨(row.parms.map DataRowParm.counted).sum + 4 + 2, row.parms.length, columns.flatten⟩

/-- The bytes of the message behind the type byte. -/
def DataRow.bytesWritten (message : DataRow) : Int :=
  4 + 2 + message.data.length

/-! ## Reading the message -/

/-- A column as the reader reports it: its length and where its value stands. -/
structure ReadParm where
  length : Int
  value : Int
deriving DecidableEq, Repr

/-- The loop over the columns. -/
def readDataRowParms (memory : Memory) : Nat → Int → List ReadParm
  | 0, _ => []
  | count + 1, curPointer =>
    let length := memory.int32At curPointer
    let value := curPointer + 4
    ⟨length, value⟩ :: readDataRowParms memory count (value + length)

/-- The copy of the message that the reader walks over. It has the bytes that the length field
counts: past the written bytes they are what stands `behind` the message, and the memory `around`
the copy is not known. -/
def copied (behind around : Memory) (message : DataRow) : Memory := fun address =>
  if 0 ≤ address ∧ address < message.length - 4 - 2 then
    (message.data[address.toNat]?).getD (behind address)
  else around address

/-- `read_data_row`. -/
def readDataRow (behind around : Memory) (message : DataRow) : List ReadParm :=
  if message.numColumns = 0 then []
  else readDataRowParms (copied behind around message) message.numColumns 0

end Octo.Rocto
