import Octo.Rocto.ReadBind

/-!
# The wire format of a Bind message

The data of a Bind message is two names, the format codes of the parameters, the parameters and the
format codes of the result columns. A NULL has the length `-1` and no bytes. The encoding here is
the format that the protocol documents, and `Carries` says when a `Bind` in memory has the fields of
a message.
-/
namespace Octo.Rocto

open Octo.Foundation

/-- The fields of a Bind message. A format is binary or text. -/
structure BindMessage where
  dest : List UInt8
  source : List UInt8
  parmFormats : List Bool
  parms : List (Option (List UInt8))
  resultFormats : List Bool
  dest_noNull : 0 ∉ dest
  source_noNull : 0 ∉ source
  parmFormats_count : parmFormats.length ≤ 1 ∨ parmFormats.length = parms.length
  parms_count : parms.length < 32768
  parms_short : ∀ value ∈ parms, ∀ bytes ∈ value, bytes.length < 2147483648
  resultFormats_count : resultFormats.length < 32768

/-- A format code: 0 for text, 1 for binary. -/
def formatCode (binary : Bool) : Int :=
  if binary then 1 else 0

/-- A format code in two bytes. -/
def encodeFormat (binary : Bool) : List UInt8 :=
  [0, if binary then 1 else 0]

/-- A parameter: its length and its bytes. -/
def encodeParm : Option (List UInt8) → List UInt8
  | none => [255, 255, 255, 255]
  | some bytes => bytes32 bytes.length ++ bytes

/-- A message up to the number of its parameters. -/
def encodeHead (dest source : List UInt8) (formats : List Bool) (count : Nat) : List UInt8 :=
  dest ++ 0 :: (source ++ 0 :: (bytes16 formats.length ++
    (formats.flatMap encodeFormat ++ bytes16 count)))

/-- The format codes of the result columns. -/
def encodeResultFormats (formats : List Bool) : List UInt8 :=
  bytes16 formats.length ++ formats.flatMap encodeFormat

/-- The data of a Bind message. -/
def BindMessage.encode (message : BindMessage) : List UInt8 :=
  encodeHead message.dest message.source message.parmFormats message.parms.length ++
    (message.parms.flatMap encodeParm ++ encodeResultFormats message.resultFormats)

/-! ## Fields in memory -/

/-- Format codes in memory, in the order of the host. -/
def CarriesFormats (memory : Memory) (address : Int) (formats : List Bool) : Prop :=
  ∀ (index : Nat) binary, formats[index]? = some binary →
    memory.native16At (address + 2 * index) = formatCode binary

/-- A parameter in memory. -/
def CarriesParm (memory : Memory) (parm : BindParm) : Option (List UInt8) → Prop
  | none => parm.length = -1
  | some bytes => parm.length = bytes.length ∧ memory.Holds parm.value bytes

/-- A `Bind` that has the fields of a message. -/
structure Bind.Carries (bind : Bind) (message : BindMessage) : Prop where
  dest : bind.memory.Holds bind.dest (message.dest ++ [0])
  source : bind.memory.Holds bind.source (message.source ++ [0])
  numParmFormatCodes : bind.numParmFormatCodes = message.parmFormats.length
  parmFormatCodes : CarriesFormats bind.memory bind.parmFormatCodes message.parmFormats
  numParms : bind.numParms = message.parms.length
  parms : List.Forall₂ (CarriesParm bind.memory) bind.parms message.parms
  numResultColFormatCodes : bind.numResultColFormatCodes = message.resultFormats.length
  resultColFormatCodes : CarriesFormats bind.memory bind.resultColFormatCodes message.resultFormats

/-! ## Messages that are read -/

/-- A message without a NULL, and without a format code when it has no parameters. -/
structure BindMessage.Readable (message : BindMessage) : Prop where
  noNull : none ∉ message.parms
  codes : message.parmFormats.length ≤ message.parms.length

/-- A beginning that `read_bind` accepts. -/
structure ValidHead (dest source : List UInt8) (formats : List Bool) (count : Nat) : Prop where
  dest_noNull : 0 ∉ dest
  source_noNull : 0 ∉ source
  codes : formats.length ≤ count
  codes_all : formats.length ≤ 1 ∨ formats.length = count
  small : count < 32768

/-- The data has a parameter with a negative length, behind parameters that are not NULL. A NULL is
one of them. -/
def HasNegativeLength (data : List UInt8) : Prop :=
  ∃ dest source formats count, ValidHead dest source formats count ∧
    ∃ (values : List (List UInt8)) (first second third fourth : UInt8) (rest : List UInt8),
      values.length < count ∧ (∀ bytes ∈ values, bytes.length < 2147483648) ∧
      int32 first second third fourth < 0 ∧
      data = encodeHead dest source formats count ++
        (values.flatMap (fun bytes => encodeParm (some bytes)) ++
          (first :: second :: third :: fourth :: rest))

/-- The data is a message with a format code and no parameters. -/
def HasLoneFormatCode (data : List UInt8) : Prop :=
  ∃ message : BindMessage, message.parms.length < message.parmFormats.length ∧ data = message.encode

/-- There are bytes behind a message. -/
def HasTrailingBytes (data : List UInt8) : Prop :=
  ∃ message : BindMessage, message.Readable ∧ ∃ rest, rest ≠ [] ∧ data = message.encode ++ rest

/-- The number of the result column format codes is missing, or its second byte is. -/
def LacksResultFormats (data : List UInt8) : Prop :=
  ∃ message : BindMessage, message.Readable ∧ message.resultFormats = [] ∧
    (data ++ [0, 0] = message.encode ∨ data ++ [0] = message.encode)

end Octo.Rocto
