import Octo.Rocto.PasswordMessage

/-!
# Who is authenticated

With the record of a user, the handler accepts exactly the password that the protocol asks for. The
record is the one of the startup message's user if and only if the local buffer holds that name: the
name is below the limit of `strncpy`, or the stack happens to continue it.
-/
namespace Octo.Rocto

open List hiding Vector
open Option Nat

/-! ## Digits -/

theorem nibbleToHex_ofNat : ∀ nibble : Fin 16,
    nibbleToHex (UInt8.ofNat nibble) = hexDigits.getD nibble 0 := by
  decide

theorem nibbleToHex_eq {nibble : UInt8} (small : nibble.toNat < 16) :
    nibbleToHex nibble = hexDigits.getD nibble.toNat 0 := by
  have := nibbleToHex_ofNat ⟨nibble.toNat, small⟩
  rwa [UInt8.ofNat_toNat] at this

theorem byteToHex_eq (byte : UInt8) : byteToHex byte = hexByte byte := by
  have below := byte.toNat_lt
  have high : (byte >>> 4).toNat = byte.toNat / 16 := by
    exact shiftRight_eq_div_pow _ _
  have low : ((byte <<< 4) >>> 4).toNat = byte.toNat % 16 := by
    rw [UInt8.toNat_shiftRight, UInt8.toNat_shiftLeft]
    simp only [UInt8.reduceToNat, reduceMod]
    omega
  rw [byteToHex, hexByte, nibbleToHex_eq (by omega), nibbleToHex_eq (by omega), high, low]

theorem length_flatMap_hexByte (bytes : List UInt8) :
    (bytes.flatMap hexByte).length = 2 * bytes.length := by
  induction bytes with
  | nil => rfl
  | cons byte bytes ih =>
    rw [flatMap_cons, length_append, ih, hexByte]
    simp only [length_cons, length_nil]
    omega

theorem md5ToHex_eq (digest : Vector UInt8 md5DigestLength) :
    md5ToHex digest md5HexLen = some (digest.toList.flatMap hexByte) := by
  rw [md5ToHex, if_neg (lt_irrefl _), funext byteToHex_eq]

/-! ## Texts -/

variable {stop : UInt8} {text rest name stack : List UInt8} {columns : List (List UInt8)}
  (record : UserRecord)

theorem takeWhile_of_notMem (plain : stop ∉ text) :
    text.takeWhile (· ≠ stop) = text :=
  takeWhile_eq_self_iff.mpr fun _ member =>
    decide_eq_true (ne_of_mem_of_not_mem member plain)

theorem takeWhile_append_of_notMem (plain : stop ∉ text) :
    (text ++ stop :: rest).takeWhile (· ≠ stop) = text := by
  rw [takeWhile_append, takeWhile_of_notMem plain, if_pos rfl,
    takeWhile_cons_of_neg (by simp), append_nil]

theorem strncpy_append (noNull : 0 ∉ text) (rest : List UInt8) :
    strncpy (text ++ rest) text.length = text := by
  have copied : (text ++ rest).takeWhile (· ≠ 0) = text ++ rest.takeWhile (· ≠ 0) :=
    takeWhile_append_of_pos fun byte member => by
      simpa using fun same : byte = 0 => noNull (same ▸ member)
  rw [strncpy, copied, take_left, length_append, Nat.sub_eq_zero_of_le (Nat.le_add_right _ _),
    replicate_zero, append_nil]

/-- A text at the beginning of some bytes is found if a null byte stands behind it. -/
theorem terminatedText_eq_some_iff {bytes : List UInt8} :
    terminatedText bytes = some text ↔ 0 ∉ text ∧ ∃ rest, bytes = text ++ 0 :: rest := by
  rw [terminatedText]
  constructor
  · intro found
    split at found
    case isFalse => cases found
    case isTrue member =>
      obtain rfl := some.inj found
      obtain ⟨before, rest, rfl, first⟩ := eq_append_cons_of_mem member
      rw [takeWhile_append_of_notMem first]
      exact ⟨first, rest, rfl⟩
  · rintro ⟨noNull, rest, rfl⟩
    rw [if_pos (mem_append_right _ mem_cons_self), takeWhile_append_of_notMem noNull]

/-- The names that are looked up as they are. -/
def KeepsName (name stack : List UInt8) : Prop :=
  name.length < ydbMaxIdent ∨
    ∃ rest, stack.drop ydbMaxIdent = name.drop ydbMaxIdent ++ 0 :: rest

theorem lookupName_eq_some_iff (noNull : 0 ∉ name) :
    lookupName name stack = some name ↔ KeepsName name stack := by
  rw [lookupName, strncpy, takeWhile_of_notMem noNull, terminatedText_eq_some_iff,
    and_iff_right noNull, KeepsName]
  by_cases short : name.length < ydbMaxIdent
  · refine iff_of_true ?_ (.inl short)
    obtain ⟨padding, same⟩ : ∃ padding, ydbMaxIdent - name.length = padding + 1 :=
      ⟨ydbMaxIdent - name.length - 1, by omega⟩
    rw [take_of_length_le (le_of_lt short), same, append_assoc]
    exact ⟨_, rfl⟩
  · rw [or_iff_right short, Nat.sub_eq_zero_of_le (Nat.le_of_not_lt short), replicate_zero,
      append_nil]
    refine exists_congr fun rest => ?_
    have split : name ++ 0 :: rest =
        name.take ydbMaxIdent ++ (name.drop ydbMaxIdent ++ 0 :: rest) := by
      rw [← append_assoc, take_append_drop]
    rw [split, append_cancel_left_eq]

/-! ## Records -/

theorem skipColumns_append {column : Nat} {first : List UInt8} (plain : columnDelimiter ∉ first) :
    skipColumns (column + 1) (first ++ columnDelimiter :: rest) = skipColumns column rest := by
  induction first with
  | nil => rw [nil_append, skipColumns, if_pos rfl]
  | cons c first ih =>
    rw [mem_cons, not_or] at plain
    rw [cons_append, skipColumns, if_neg (Ne.symm plain.1), ih plain.2]

theorem skipColumns_flatMap (more : Nat) (plain : ∀ column ∈ columns, columnDelimiter ∉ column) :
    skipColumns (columns.length + more)
      (columns.flatMap (fun column => column ++ [columnDelimiter]) ++ rest) =
        skipColumns more rest := by
  induction columns with
  | nil => rw [flatMap_nil, nil_append, length_nil, Nat.zero_add]
  | cons column columns ih =>
    rw [forall_mem_cons] at plain
    rw [flatMap_cons, length_cons, Nat.add_right_comm, append_assoc, append_assoc,
      singleton_append, skipColumns_append plain.1, ih plain.2]

theorem notMem_skipColumns (column : Nat) {row : List UInt8} (plain : columnDelimiter ∉ row) :
    columnDelimiter ∉ skipColumns column row := by
  fun_induction skipColumns column row with
  | case1 | case2 => exact plain
  | case3 | case4 => grind

theorem exists_skipColumns {column : Nat}
    (plain : ∀ column ∈ columns, columnDelimiter ∉ column) (found : columns[column]? = some text) :
    ∃ behind, skipColumns column
      (columns.flatMap (fun column => column ++ [columnDelimiter]) ++ rest) =
        text ++ columnDelimiter :: behind := by
  induction columns generalizing column with
  | nil => cases found
  | cons first columns ih =>
    rw [flatMap_cons, append_assoc, append_assoc, singleton_append]
    cases column with
    | zero =>
      cases found
      exact ⟨_, by rw [skipColumns]⟩
    | succ column =>
      rw [skipColumns_append (plain first mem_cons_self)]
      exact ih (forall_mem_cons.1 plain).2 found

/-- A row of columns that each end in a delimiter, and maybe a last column without one. -/
structure UserRow where
  ended : List (List UInt8)
  last : Option (List UInt8)
  plain : ∀ column ∈ ended ++ last.toList, columnDelimiter ∉ column ∧ 0 ∉ column

namespace UserRow

/-- The bytes of a row. -/
def bytes (row : UserRow) : List UInt8 :=
  row.ended.flatMap (fun column => column ++ [columnDelimiter]) ++ row.last.getD []

/-- What is read of a column: its text if that fits with a null terminator. -/
def value (row : UserRow) (bufLen column : Nat) : List UInt8 :=
  (((row.ended ++ row.last.toList)[column]?).filter (·.length < bufLen)).getD []

/-- The value is right exactly when the column ends in a delimiter and does not fill the buffer. -/
theorem boundedColumnValue_eq_iff (row : UserRow) (bufLen column : Nat) :
    boundedColumnValue bufLen row.bytes column = some (row.value bufLen column) ↔
      if userColumnRolvaliduntil < column then row.value bufLen column = []
      else ∃ text, row.ended[column]? = some text ∧ text.length ≠ bufLen := by
  obtain ⟨ended, last, plain⟩ := row
  obtain ⟨plainEnded, plainLast⟩ := forall_mem_append.1 plain
  rw [boundedColumnValue, bytes]
  split
  case isTrue => rw [some.injEq, eq_comm]
  case isFalse =>
    cases found : ended[column]? with
    | none =>
      obtain ⟨more, rfl⟩ := Nat.exists_eq_add_of_le (getElem?_eq_none_iff.1 found)
      have noEnd : columnDelimiter ∉ last.getD [] := by
        cases last with
        | none => exact not_mem_nil
        | some text => exact (plainLast text mem_cons_self).1
      have start := notMem_skipColumns more noEnd
      rw [← skipColumns_flatMap more fun text member => (plainEnded text member).1] at start
      simp [getUserColumnValue, start]
    | some text =>
      obtain ⟨behind, start⟩ :=
        @exists_skipColumns _ (last.getD []) _ _ (fun text member => (plainEnded text member).1)
          found
      obtain ⟨noEnd, noNull⟩ := plainEnded text (mem_of_getElem? found)
      have given : (ended ++ last.toList)[column]? = some text := by
        rw [getElem?_append_left (List.getElem?_eq_some_iff.1 found).1, found]
      simp only [getUserColumnValue, value, given, start, takeWhile_append_of_notMem noEnd,
        strncpy_append noNull]
      by_cases fits : text.length < bufLen <;> grind

/-- The row `a|b`. -/
def twoColumns : UserRow := ⟨[[97]], some [98], by decide⟩

theorem boundedColumnValue_firstColumn :
    boundedColumnValue 8 twoColumns.bytes 0 = some (twoColumns.value 8 0) :=
  (boundedColumnValue_eq_iff twoColumns 8 0).mpr ⟨[97], rfl, by decide⟩

/-- The second column has no delimiter, and the first one fills a buffer of one byte. -/
theorem boundedColumnValue_lastColumn :
    boundedColumnValue 8 twoColumns.bytes 1 ≠ some (twoColumns.value 8 1) ∧
      boundedColumnValue 1 twoColumns.bytes 0 ≠ some (twoColumns.value 1 0) := by
  decide

end UserRow

theorem UserRecord.notMem_digits {record : UserRecord} {byte : UInt8} (other : byte ∉ hexDigits) :
    byte ∉ record.digits :=
  fun member => other (record.digits_hex byte member)

/-- The column with the hash is found in a record. -/
theorem UserRecord.getUserColumnValue_row :
    getUserColumnValue (md5HexLen + md5PrefixLen) record.row userColumnRolpassword =
      some (md5Prefix ++ record.digits) := by
  have start : skipColumns userColumnRolpassword record.row =
      md5Prefix ++ record.digits ++ columnDelimiter :: record.behind := by
    rw [← record.columns_count]
    exact (skipColumns_flatMap 0 record.columns_plain).trans (by rw [skipColumns])
  have plain (stop : UInt8) (inPrefix : stop ∉ md5Prefix) (inDigits : stop ∉ hexDigits) :
      stop ∉ md5Prefix ++ record.digits := by
    rw [mem_append, not_or]
    exact ⟨inPrefix, record.notMem_digits inDigits⟩
  have column := @takeWhile_append_of_notMem columnDelimiter _ record.behind
    (plain columnDelimiter (by decide) (by decide))
  have length : (md5Prefix ++ record.digits).length = 35 := by
    rw [length_append, record.digits_count]
    rfl
  simp only [getUserColumnValue, start, column]
  rw [if_neg (not_not.2 (mem_append_right _ mem_cons_self)),
    if_neg (by rw [length]; decide), strncpy_append (plain 0 (by decide) (by decide))]

/-! ## Passwords -/

section Handler

variable {md5 : List UInt8 → Vector UInt8 md5DigestLength} {parameters : List StartupParm}

theorem checkPassword_row_eq_ok (password : List UInt8) (salt : Vector UInt8 4) :
    checkPassword md5 record.row password salt = .ok () ↔
      password.drop 3 = (md5 (record.digits ++ salt.toList)).toList.flatMap hexByte := by
  have long : ¬ (md5Prefix ++ record.digits).length < 3 := by
    rw [length_append, show md5Prefix.length = 3 from rfl]
    omega
  have digits : (md5Prefix ++ record.digits).drop 3 = record.digits := rfl
  have count : ((md5 (record.digits ++ salt.toList)).toList.flatMap hexByte).length <
      md5HexLen := by
    rw [length_flatMap_hexByte, Vector.length_toList]
    decide
  have compared : strncmpEqual ((md5 (record.digits ++ salt.toList)).toList.flatMap hexByte)
      (password.drop 3) md5HexLen = true ↔
        password.drop 3 = (md5 (record.digits ++ salt.toList)).toList.flatMap hexByte := by
    rw [strncmpEqual, decide_eq_true_eq, take_of_length_le (le_of_lt count)]
    constructor
    · intro same
      have short : (password.drop 3).length < md5HexLen := by
        have := congrArg length same
        rw [length_take] at this
        omega
      rw [same, take_of_length_le (le_of_lt short)]
    · intro same
      rw [same, take_of_length_le (le_of_lt count)]
  rw [checkPassword, record.getUserColumnValue_row]
  simp only [md5Prefix, cons_append] at long digits ⊢
  rw [if_neg long, md5ToHex_eq]
  simp only
  split
  case isTrue same => exact iff_of_true rfl (compared.1 same)
  case isFalse differs => exact iff_of_false (fun failed => by cases failed) (mt compared.2 differs)

theorem eq_md5Prefix_append_iff {password digits : List UInt8} :
    password = md5Prefix ++ digits ↔
      strncmpEqual password md5Prefix md5PrefixLen = true ∧ password.drop 3 = digits := by
  rw [strncmpEqual, decide_eq_true_eq, show md5Prefix.take md5PrefixLen = md5Prefix from rfl]
  constructor
  · rintro rfl
    exact ⟨rfl, rfl⟩
  · rintro ⟨first, rfl⟩
    rw [← first]
    exact (take_append_drop 3 password).symm

/-- The handler accepts the password of the record that it looks up. -/
theorem handlerFor_eq_ok {records : List UInt8 → Option UserRecord} {password user : List UInt8}
    {salt : Vector UInt8 4} (named : userName parameters = some name) :
    handlerFor md5 records parameters password salt stack = .ok user ↔
      lookupName name stack = some user ∧ Authentic md5 records user password salt := by
  rw [handlerFor, handlePasswordMessage, named]
  simp only [Authentic, expectedPassword, eq_md5Prefix_append_iff]
  by_cases typed : strncmpEqual password md5Prefix md5PrefixLen = false
  · rw [if_pos typed]
    refine iff_of_false (fun failed => by cases failed) ?_
    rintro ⟨-, record, -, typedToo, -⟩
    rw [typed] at typedToo
    cases typedToo
  · rw [if_neg typed]
    rw [Bool.not_eq_false] at typed
    cases looked : lookupName name stack with
    | none => exact iff_of_false (fun failed => by cases failed) fun found => by cases found.1
    | some username =>
      cases found : records username with
      | none =>
        simp only [found, some.injEq]
        refine iff_of_false (fun failed => by cases failed) ?_
        rintro ⟨rfl, record, other, -⟩
        rw [found] at other
        cases other
      | some record =>
        simp only [found, map_some, some.injEq]
        cases checked : checkPassword md5 record.row password salt with
        | error error =>
          refine iff_of_false (fun failed => by cases failed) ?_
          rintro ⟨rfl, other, sameRecord, -, digits⟩
          obtain rfl := some.inj (found.symm.trans sameRecord)
          rw [(checkPassword_row_eq_ok record password salt).2 digits] at checked
          cases checked
        | ok _ =>
          have digits := (checkPassword_row_eq_ok record password salt).1 checked
          constructor
          · intro same
            obtain rfl := Except.ok.inj same
            exact ⟨rfl, record, found, typed, digits⟩
          · rintro ⟨rfl, -⟩
            rfl

/-- A record with a hash of zeros. -/
def zeroRecord : UserRecord where
  columns := replicate 10 []
  digits := replicate 32 48
  behind := []
  columns_count := rfl
  columns_plain _ member := eq_of_mem_replicate member ▸ not_mem_nil
  digits_count := rfl
  digits_hex _ member := eq_of_mem_replicate member ▸ mem_cons_self

/-- A table with one user. -/
def onlyUser (name : List UInt8) : List UInt8 → Option UserRecord :=
  fun other => if other = name then some zeroRecord else none

theorem authentic_onlyUser (name : List UInt8) (salt : Vector UInt8 4) :
    Authentic md5 (onlyUser name) name (expectedPassword md5 zeroRecord salt) salt :=
  ⟨zeroRecord, if_pos rfl, rfl⟩

/-- The only user of a table is authenticated only if it is that name that is looked up. -/
theorem lookupName_of_authenticatesExactly (named : userName parameters = some name)
    (exactly : AuthenticatesExactly md5 parameters name stack) :
    lookupName name stack = some name := by
  obtain ⟨user, accepted⟩ := (exactly (onlyUser name) _ (Vector.replicate 4 0)).2
    (authentic_onlyUser name _)
  obtain ⟨looked, record, found, -⟩ := (handlerFor_eq_ok named).1 accepted
  rw [onlyUser] at found
  split at found
  case isTrue same => rwa [same] at looked
  case isFalse => cases found

end Handler

/-- Exactly the user of the startup message is authenticated if and only if the local buffer keeps
the name, and two names that are kept are never authenticated with the same record. -/
theorem authenticatesExactly_iff_keepsName (md5 : List UInt8 → Vector UInt8 md5DigestLength)
    {parameters : List StartupParm} {name : List UInt8} (named : userName parameters = some name)
    (noNull : 0 ∉ name) (stack : List UInt8) :
    (AuthenticatesExactly md5 parameters name stack ↔ KeepsName name stack) ∧
      (KeepsName name stack →
        ∀ otherParameters other otherStack, userName otherParameters = some other → 0 ∉ other →
          KeepsName other otherStack → other ≠ name →
        ∀ records password salt user otherPassword otherSalt otherUser,
          handlerFor md5 records parameters password salt stack = .ok user →
          handlerFor md5 records otherParameters otherPassword otherSalt otherStack =
            .ok otherUser →
          otherUser ≠ user) := by
  refine ⟨⟨?_, ?_⟩, ?_⟩
  · intro exactly
    exact (lookupName_eq_some_iff noNull).1 (lookupName_of_authenticatesExactly named exactly)
  · intro keeps records password salt
    have looked := (lookupName_eq_some_iff noNull).2 keeps
    constructor
    · rintro ⟨user, accepted⟩
      obtain ⟨same, authentic⟩ := (handlerFor_eq_ok named).1 accepted
      rwa [some.inj (looked.symm.trans same)]
    · intro authentic
      exact ⟨name, (handlerFor_eq_ok named).2 ⟨looked, authentic⟩⟩
  · intro keeps otherParameters other otherStack otherNamed otherNoNull otherKeeps differs records
      password salt user otherPassword otherSalt otherUser accepted otherAccepted
    have looked := (lookupName_eq_some_iff noNull).2 keeps
    have otherLooked := (lookupName_eq_some_iff otherNoNull).2 otherKeeps
    have same := ((handlerFor_eq_ok named).1 accepted).1
    have otherSame := ((handlerFor_eq_ok otherNamed).1 otherAccepted).1
    rw [← some.inj (looked.symm.trans same), ← some.inj (otherLooked.symm.trans otherSame)]
    exact differs

/-- A name of 32 bytes that begins with 31 letters. -/
def longName (last : UInt8) : List UInt8 :=
  replicate 31 97 ++ [last]

/-- A hash of the last byte. -/
def lastByteHash (text : List UInt8) : Vector UInt8 md5DigestLength :=
  Vector.replicate md5DigestLength (text.getLastD 0)

/-- A long name is authenticated exactly over a stack that goes on like the name. -/
theorem authenticatesExactly_longName :
    AuthenticatesExactly lastByteHash [⟨[100, 98], [97]⟩, ⟨userParm, longName 98⟩] (longName 98)
      (replicate 31 1 ++ [98, 0, 7]) :=
  (authenticatesExactly_iff_keepsName lastByteHash rfl (by decide) _).1.2 (.inr ⟨[7], by decide⟩)

/-- A hash that is always zero. -/
def zeroHash : List UInt8 → Vector UInt8 md5DigestLength :=
  fun _ => Vector.replicate md5DigestLength 0

/-- Over a cleared stack, two names of 32 bytes are authenticated with the record of their common 31
bytes, and neither with its own. -/
theorem longNames_share_record :
    ¬ AuthenticatesExactly zeroHash [⟨userParm, longName 98⟩] (longName 98)
        (replicate 64 0) ∧
      ∃ records password salt user,
        handlerFor zeroHash records [⟨userParm, longName 98⟩] password salt
          (replicate 64 0) = .ok user ∧
        handlerFor zeroHash records [⟨userParm, longName 99⟩] password salt
          (replicate 64 0) = .ok user := by
  refine ⟨fun exactly => ?_, onlyUser (replicate 31 97),
    expectedPassword zeroHash zeroRecord (Vector.replicate 4 0), Vector.replicate 4 0,
    replicate 31 97, ?_, ?_⟩
  · have looked := lookupName_of_authenticatesExactly rfl exactly
    exact absurd looked (by decide)
  · exact (handlerFor_eq_ok rfl).2 ⟨by decide, authentic_onlyUser _ _⟩
  · exact (handlerFor_eq_ok rfl).2 ⟨by decide, authentic_onlyUser _ _⟩

end Octo.Rocto
