import Octo.Foundation.ByteText
import Octo.Rocto.ReadBind

/-!
# The parameters of a prepared statement

The grammar numbers the literals and the placeholders of a query together and marks the placeholders
in an array that it enlarges on demand. `handle_parse` stores the literals of the query with the
prepared statement, and `handle_bind` puts them on the portal with the values of a Bind message in
between. A node that has no literal is how `handle_bind` knows a placeholder, so the two handlers
agree only on the placeholders that are marked.
-/
namespace Octo.Rocto

open Octo.Foundation

/-! ## The grammar -/

/-- A column of the query text: an `int32_t` that is not negative. -/
abbrev Column : Type :=
  Fin 2147483648

/-- What takes a parameter number in the grammar. A placeholder has the columns of its text. -/
inductive QueryParm where
  | literal (text : List UInt8)
  | placeholder (firstColumn lastColumn : Column)
deriving DecidableEq, Repr

/-- `INT16_MAX`. -/
def int16Max : Nat :=
  32767

/-- `YDB_MAX_STR`. -/
def ydbMaxStr : Nat :=
  1048576

/-- The fields of `ParseContext` about parameters, and the values under the cursor. -/
structure ParseContext where
  numBindParms : Nat
  totalParms : Nat
  isBindParm : List Bool
  parmStart : List Column
  parmEnd : List Column
  cursor : List (List UInt8)

/-- The context that `handle_parse` starts with. -/
def ParseContext.start : ParseContext :=
  ⟨0, 0, List.replicate 8 false, [], [], []⟩

/-- `EXPAND_ARRAY_ALLOCATION` for an array of booleans. -/
def expandArrayAllocation (array : List Bool) (newSize : Nat) : List Bool :=
  array ++ List.replicate (newSize - array.length) false

/-- `DOUBLE_ARRAY_ALLOCATION` for an array of booleans. -/
def doubleArrayAllocation (array : List Bool) (max : Nat) : List Bool :=
  expandArrayAllocation array (min (array.length * 2) max)

/-- The array with room for one more parameter, as the grammar sees it. -/
def resizeIsBindParm (isBindParm : List Bool) (totalParms : Nat) : List Bool :=
  if totalParms ≥ isBindParm.length then
    if totalParms > 2 * isBindParm.length then
      doubleArrayAllocation (expandArrayAllocation isBindParm totalParms) int16Max
    else doubleArrayAllocation isBindParm int16Max
  else isBindParm

/-- `parse_literal_to_parameter` for a new parameter. -/
def parseLiteralToParameter (context : ParseContext) (text : List UInt8) : Option ParseContext :=
  if context.totalParms + 1 > int16Max then none
  else if ydbMaxStr < text.length then none
  else some
    { context with totalParms := context.totalParms + 1, cursor := context.cursor ++ [text] }

/-- The rule for `literal_value`. A mark behind the end of the array is lost, and a placeholder has
no text under the cursor yet. -/
def literalValue (context : ParseContext) : QueryParm → Option ParseContext
  | .literal text => parseLiteralToParameter context text
  | .placeholder firstColumn lastColumn =>
    parseLiteralToParameter
      { context with
        numBindParms := context.numBindParms + 1
        isBindParm :=
          (resizeIsBindParm context.isBindParm context.totalParms).set context.totalParms true
        parmStart := context.parmStart ++ [firstColumn]
        parmEnd := context.parmEnd ++ [lastColumn] } []

/-- The parameters of a query, one after the other. -/
def parseQuery : ParseContext → List QueryParm → Option ParseContext
  | context, [] => some context
  | context, parm :: query => (literalValue context parm).bind fun context =>
    parseQuery context query

/-! ## Nodes of the session -/

/-- The nodes `type`, `start` and `end` of a bind parameter. -/
structure BindAttributes where
  type : Int
  start : Column
  ended : Column
deriving DecidableEq, Repr

/-- The nodes of a prepared statement under `parameters`. The node of the parameter `n` under `all`
stands at the position `n - 1`. -/
structure PreparedParms where
  numBindParms : Nat
  totalParms : Nat
  all : List (Option (List UInt8))
  parms : List BindAttributes

/-- The nodes of a portal under `parameters`. -/
structure BoundParms where
  numBindParms : Nat
  totalParms : Nat
  all : List (List UInt8)

/-- The prepared statements and the portals of a session. -/
structure ParmSession where
  prepared : List UInt8 → Option PreparedParms
  bound : List UInt8 → Option BoundParms

/-! ## `handle_parse` -/

/-- A Parse message: the name of the statement and the types that the client gives. -/
structure ParseMessage where
  dest : List UInt8
  parmDataTypes : List Int

/-- The type of a bind parameter: what the client says or what the query says, where `types` is the
array of the context and the memory behind it. -/
def parmType (parse : ParseMessage) (types : Nat → Int) (curBindParm : Nat) : Int :=
  parse.parmDataTypes[curBindParm]?.getD (types curBindParm)

/-- The loop over all parameters, with the values under the cursor from the current one on. -/
def storeParms (parse : ParseMessage) (types : Nat → Int) (context : ParseContext) :
    List (List UInt8) → Nat → Nat → Option (List (Option (List UInt8)) × List BindAttributes)
  | [], _, _ => some ([], [])
  | text :: cursor, curParm, curBindParm =>
    if context.isBindParm[curParm]? = some true then do
      let start ← context.parmStart[curBindParm]?
      let ended ← context.parmEnd[curBindParm]?
      let (all, parms) ← storeParms parse types context cursor (curParm + 1) (curBindParm + 1)
      return (none :: all, ⟨parmType parse types curBindParm, start, ended⟩ :: parms)
    else do
      let (all, parms) ← storeParms parse types context cursor (curParm + 1) curBindParm
      return (some text :: all, parms)

/-- `handle_parse` for a query with these parameters. -/
def handleParse (session : ParmSession) (parse : ParseMessage) (types : Nat → Int)
    (query : List QueryParm) : Option ParmSession := do
  let context ← parseQuery .start query
  let (all, parms) ← storeParms parse types context context.cursor 0 0
  let prepared : PreparedParms := ⟨context.numBindParms, context.totalParms, all, parms⟩
  return { session with prepared := Function.update session.prepared parse.dest (some prepared) }

/-! ## `handle_bind` -/

/-- `bin_to_char`: a `char` has a sign. -/
def binToChar (memory : Memory) (bin : Int) : Int :=
  twosComplement (memory.bytesAt bin 1)

/-- `bin_to_int16`: `ntohs` has no sign. -/
def binToInt16 (memory : Memory) (bin : Int) : Int :=
  bigEndian (memory.bytesAt bin 2)

/-- `bin_to_int32`: `ntohl` has no sign. -/
def binToInt32 (memory : Memory) (bin : Int) : Int :=
  bigEndian (memory.bytesAt bin 4)

/-- `bin_to_int64`. -/
def binToInt64 (memory : Memory) (bin : Int) : Int :=
  twosComplement (memory.bytesAt bin 8)

/-- `copy_binary_parameter`. A `memcpy` with a negative length does not return. -/
def copyBinaryParameter (memory : Memory) (parm : BindParm) : Option (List UInt8) :=
  if parm.length = 1 then some (decimal (binToChar memory parm.value))
  else if parm.length = 2 then some (decimal (binToInt16 memory parm.value))
  else if parm.length = 4 then some (decimal (binToInt32 memory parm.value))
  else if parm.length = 8 then some (decimal (binToInt64 memory parm.value))
  else if parm.length < 0 then none
  else some (memory.bytesAt parm.value parm.length.toNat)

/-- The text up to the null terminator, with the address of a null byte behind the message. -/
def stringAt (memory : Memory) (last address : Int) : Option (List UInt8) :=
  memory.cString (last - address + 1).toNat address

/-- The format that `handle_bind` takes for a parameter: with more than one format code, the code at
the number of the parameter among all parameters. -/
def Bind.isBinary (bind : Bind) (curParm : Nat) : Bool :=
  if bind.numParmFormatCodes > 1 then
    bind.memory.native16At (bind.parmFormatCodes + 2 * curParm) = 1
  else if bind.numParmFormatCodes = 1 then bind.memory.native16At bind.parmFormatCodes = 1
  else false

/-- The value of a bind parameter as text. -/
def Bind.parmText (bind : Bind) (last : Int) (binary : Bool) (parm : BindParm) :
    Option (List UInt8) :=
  if binary then copyBinaryParameter bind.memory parm else stringAt bind.memory last parm.value

/-- The range of a type in `handle_bind`. -/
def typeInRange (type : Int) : Bool :=
  0 ≤ type ∧ type ≤ int16Max

/-- `ydb_set_s` for a node of the portal. -/
def setParm (text : List UInt8) : Option (List UInt8) :=
  if text.length ≤ ydbMaxStr then some text else none

/-- What is stored for one parameter: the literal of the prepared statement, or else the value of
the current bind parameter. The columns of a bind parameter are in range. -/
def bindParm (bind : Bind) (last : Int) (parms : List BindAttributes) (curParm curBindParm : Nat) :
    Option (List UInt8) → Option (List UInt8)
  | some text => setParm text
  | none => do
      let attributes ← parms[curBindParm]?
      if typeInRange attributes.type then
        let parm ← bind.parms[curBindParm]?
        let text ← bind.parmText last (bind.isBinary curParm) parm
        setParm text
      else none

/-- The loop over all parameters, with the nodes of the prepared statement from the current one
on. -/
def bindParms (bind : Bind) (last : Int) (parms : List BindAttributes) :
    List (Option (List UInt8)) → Nat → Nat → Option (List (List UInt8))
  | [], _, _ => some []
  | node :: all, curParm, curBindParm => do
      let text ← bindParm bind last parms curParm curBindParm node
      let texts ← bindParms bind last parms all (curParm + 1)
        (if node.isNone then curBindParm + 1 else curBindParm)
      return text :: texts

/-- `handle_bind`, with the address of a null byte behind the message. -/
def handleBind (session : ParmSession) (bind : Bind) (last : Int) : Option ParmSession := do
  let dest ← stringAt bind.memory last bind.dest
  let source ← stringAt bind.memory last bind.source
  let prepared ← session.prepared source
  if (prepared.numBindParms : Int) ≠ bind.numParms then none
  else
    let all ← bindParms bind last prepared.parms prepared.all 0 0
    let portal : BoundParms := ⟨prepared.numBindParms, prepared.totalParms, all⟩
    return { session with bound := Function.update session.bound dest (some portal) }

end Octo.Rocto
