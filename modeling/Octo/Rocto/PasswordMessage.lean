import Mathlib

/-!
# Password messages

`handle_password_message` copies the name of the user into a buffer of its own, looks up the record
of the user and compares the hash that the client sent with one made of the stored hash and a salt.
The name is copied with the limit for M identifiers into a larger buffer that is not cleared, so a
name that reaches the limit is continued by what the buffer held before.
-/
namespace Octo.Rocto

/-! ## Texts in C -/

/-- `YDB_MAX_IDENT`. -/
def ydbMaxIdent : Nat :=
  31

/-- `strncpy`: the bytes that it writes. -/
def strncpy (source : List UInt8) (count : Nat) : List UInt8 :=
  (source.takeWhile (· ≠ 0)).take count ++
    List.replicate (count - (source.takeWhile (· ≠ 0)).length) 0

/-- Whether `strncmp` returns 0 for two texts without a null byte. -/
def strncmpEqual (first second : List UInt8) (count : Nat) : Bool :=
  first.take count = second.take count

/-- The text at the beginning of some bytes, if it has a null terminator. -/
def terminatedText (bytes : List UInt8) : Option (List UInt8) :=
  if 0 ∈ bytes then some (bytes.takeWhile (· ≠ 0)) else none

/-! ## Hashes in hexadecimal digits -/

/-- `MD5_DIGEST_LENGTH`. -/
def md5DigestLength : Nat :=
  16

/-- `MD5_HEX_LEN`. -/
def md5HexLen : Nat :=
  md5DigestLength * 2 + 1

/-- `MD5_PREFIX`. -/
def md5Prefix : List UInt8 :=
  [109, 100, 53]

/-- `MD5_PREFIX_LEN`. -/
def md5PrefixLen : Nat :=
  3

/-- A nibble as a digit or a lower case letter, in the arithmetic of `byte_to_hex`. -/
def nibbleToHex (nibble : UInt8) : UInt8 :=
  if nibble < 10 then nibble + 48 else nibble + 87

/-- `byte_to_hex`. -/
def byteToHex (c : UInt8) : List UInt8 :=
  [nibbleToHex (c >>> 4), nibbleToHex ((c <<< 4) >>> 4)]

/-- `md5_to_hex`, which fails when there is not enough room. -/
def md5ToHex (digest : Vector UInt8 md5DigestLength) (hexLen : Nat) : Option (List UInt8) :=
  if hexLen < md5HexLen then none else some (digest.toList.flatMap byteToHex)

/-! ## The record of a user -/

/-- `COLUMN_DELIMITER`. -/
def columnDelimiter : UInt8 :=
  124

/-- `UserColumn_ROLPASSWORD`. -/
def userColumnRolpassword : Nat :=
  10

/-- The loop that looks for the start of a column. -/
def skipColumns : Nat → List UInt8 → List UInt8
  | 0, row => row
  | _ + 1, [] => []
  | column + 1, c :: row =>
    if c = columnDelimiter then skipColumns column row else skipColumns (column + 1) row

/-- `get_user_column_value`: what is in the buffer, which is empty when 0 is returned. The loop that
looks for the end of a column does not stop at the end of the row. -/
def getUserColumnValue (bufLen : Nat) (row : List UInt8) (column : Nat) : Option (List UInt8) :=
  let start := skipColumns column row
  let value := start.takeWhile (· ≠ columnDelimiter)
  if columnDelimiter ∉ start then none
  else if value.length > bufLen then some []
  else some (strncpy start value.length)

/-- `UserColumn_ROLVALIDUNTIL`. -/
def userColumnRolvaliduntil : Nat :=
  11

/-- `get_user_column_value` with every column and every buffer. It is a fault to read behind the row
or to write the null terminator behind the buffer. -/
def boundedColumnValue (bufLen : Nat) (row : List UInt8) (column : Nat) : Option (List UInt8) :=
  if column > userColumnRolvaliduntil then some []
  else if ((skipColumns column row).takeWhile (· ≠ columnDelimiter)).length = bufLen then none
  else getUserColumnValue bufLen row column

/-! ## The handler -/

/-- How the handler fails. A fault is memory that it should not touch. -/
inductive PasswordError where
  | passwordType
  | missingUsername
  | userLookup (username : List UInt8)
  | columnValue
  | hashConversion
  | badPassword
  | fault
deriving DecidableEq, Repr

/-- `StartupMessageParm`. -/
structure StartupParm where
  name : List UInt8
  value : List UInt8
deriving DecidableEq, Repr

/-- The parameter name `user`. -/
def userParm : List UInt8 :=
  [117, 115, 101, 114]

/-- The loop over the parameters of the startup message. -/
def userName : List StartupParm → Option (List UInt8)
  | [] => none
  | parm :: parameters => if parm.name = userParm then some parm.value else userName parameters

/-- The subscript for the lookup of a user: the text in the local buffer, after the name was copied
over what the stack held from there on. -/
def lookupName (value stack : List UInt8) : Option (List UInt8) :=
  terminatedText (strncpy value ydbMaxIdent ++ stack.drop ydbMaxIdent)

section Handler

variable (md5 : List UInt8 → Vector UInt8 md5DigestLength)

/-- The comparison of the password with the record of the user. -/
def checkPassword (row password : List UInt8) (salt : Vector UInt8 4) : Except PasswordError Unit :=
  match getUserColumnValue (md5HexLen + md5PrefixLen) row userColumnRolpassword with
  | none => .error .fault
  | some [] => .error .columnValue
  | some value =>
    if value.length < 3 then .error .fault
    else
      match md5ToHex (md5 (value.drop 3 ++ salt.toList)) md5HexLen with
      | none => .error .hashConversion
      | some md5Hex =>
        if strncmpEqual md5Hex (password.drop 3) md5HexLen then .ok ()
        else .error .badPassword

/-- `handle_password_message`. On success it returns the user that is noted for the session. -/
def handlePasswordMessage (users : List UInt8 → Option (List UInt8)) (parameters : List StartupParm)
    (password : List UInt8) (salt : Vector UInt8 4) (stack : List UInt8) :
    Except PasswordError (List UInt8) :=
  if strncmpEqual password md5Prefix md5PrefixLen = false then .error .passwordType
  else
    match userName parameters with
    | none => .error .missingUsername
    | some value =>
      match lookupName value stack with
      | none => .error .fault
      | some username =>
        match users username with
        | none => .error (.userLookup username)
        | some row => (checkPassword md5 row password salt).map fun _ => username

end Handler

/-! ## What authentication is for -/

/-- The lower case hexadecimal digits. -/
def hexDigits : List UInt8 :=
  [48, 49, 50, 51, 52, 53, 54, 55, 56, 57, 97, 98, 99, 100, 101, 102]

/-- A byte in two lower case hexadecimal digits. -/
def hexByte (byte : UInt8) : List UInt8 :=
  [hexDigits.getD (byte.toNat / 16) 0, hexDigits.getD (byte.toNat % 16) 0]

/-- A record of the user table: columns in front, the digits of the hash, and what stands behind. -/
structure UserRecord where
  columns : List (List UInt8)
  digits : List UInt8
  behind : List UInt8
  columns_count : columns.length = userColumnRolpassword
  columns_plain : ∀ column ∈ columns, columnDelimiter ∉ column
  digits_count : digits.length = 32
  digits_hex : ∀ digit ∈ digits, digit ∈ hexDigits

/-- The text of a record in the database. -/
def UserRecord.row (record : UserRecord) : List UInt8 :=
  record.columns.flatMap (fun column => column ++ [columnDelimiter]) ++
    (md5Prefix ++ record.digits ++ columnDelimiter :: record.behind)

section Specification

variable (md5 : List UInt8 → Vector UInt8 md5DigestLength)

/-- What a client sends that knows the stored hash of the user. -/
def expectedPassword (record : UserRecord) (salt : Vector UInt8 4) : List UInt8 :=
  md5Prefix ++ (md5 (record.digits ++ salt.toList)).toList.flatMap hexByte

/-- The client is the user of that name. -/
def Authentic (records : List UInt8 → Option UserRecord) (name password : List UInt8)
    (salt : Vector UInt8 4) : Prop :=
  ∃ record, records name = some record ∧ password = expectedPassword md5 record salt

/-- The handler for a table of records. -/
def handlerFor (records : List UInt8 → Option UserRecord) (parameters : List StartupParm)
    (password : List UInt8) (salt : Vector UInt8 4) (stack : List UInt8) :
    Except PasswordError (List UInt8) :=
  handlePasswordMessage md5 (fun name => (records name).map UserRecord.row) parameters password salt
    stack

/-- The handler succeeds exactly for the user of that name, with every table, salt and password. -/
def AuthenticatesExactly (parameters : List StartupParm) (name stack : List UInt8) : Prop :=
  ∀ records password salt,
    (∃ user, handlerFor md5 records parameters password salt stack = .ok user) ↔
      Authentic md5 records name password salt

end Specification

end Octo.Rocto
