import Octo.Foundation.Memory

/-!
# Rows as concatenated columns

A row of a result is the concatenation of its columns, each behind a header with its length. The
header has one, two or three bytes, and the length counts the header too. The M routine writes the
columns with `str2mval` and finds them with `mvalPiece` and `mval2str`. The C code walks over the
same bytes with `get_mval_len`.
-/
namespace Octo.PlanHelpers

open Octo.Foundation List Nat Option

/-! ## Strings of bytes in M -/

/-- `$ZCHAR` of one code: the empty string for a code that is no byte. -/
def zchar (code : Nat) : List UInt8 :=
  if code < 256 then [UInt8.ofNat code] else []

/-- `$ZASCII`: `-1` for the empty string. -/
def zascii : List UInt8 → Int
  | [] => -1
  | byte :: _ => byte.toNat

/-- `$ZEXTRACT` with both positions, which are counted from 1. -/
def zextract (text : List UInt8) (first last : Int) : List UInt8 :=
  (text.take last.toNat).drop (first.toNat - 1)

theorem zascii_zextract (text : List UInt8) (position : Nat) :
    zascii (zextract text (position + 1) (position + 1)) =
      (text[position]?.map fun byte => (byte.toNat : Int)).getD (-1) := by
  have index : ((position : Int) + 1).toNat = position + 1 := rfl
  rw [zextract, index, Nat.add_sub_cancel, drop_take]
  cases below : text.drop position with
  | nil => simp [drop_eq_nil_iff.1 below, zascii]
  | cons byte rest =>
    have found : text[position]? = some byte := by
      rw [← head?_drop, below, head?_cons]
    simp [found, zascii]

/-! ## The M routine -/

/-- `str2mval`. The header is counted in the length behind the first band. -/
def str2mval : Option (List UInt8) → List UInt8
  | none => zchar 0
  | some str =>
    let len := str.length
    if 127 > len then zchar (1 + len) ++ str
    else if 16382 > len then
      let len := len + 2
      zchar (128 + len / 256) ++ zchar (len % 256) ++ str
    else
      let len := len + 3
      zchar (192 + len / 65536) ++ zchar (len / 256 % 256) ++ zchar (len % 256) ++ str

/-- `get2bytedatalen`. -/
def get2bytedatalen (byte1 : Int) (mval : List UInt8) (offset : Int) : Int :=
  (byte1 - 128) * 256 + zascii (zextract mval (offset + 2) (offset + 2)) - 2

/-- `get3bytedatalen`. -/
def get3bytedatalen (byte1 : Int) (mval : List UInt8) (offset : Int) : Int :=
  (byte1 - 192) * 65536 + zascii (zextract mval (offset + 2) (offset + 2)) * 256 +
    zascii (zextract mval (offset + 3) (offset + 3)) - 3

/-- `mval2str`. -/
def mval2str (mval : List UInt8) : Option (List UInt8) :=
  let byte1 := zascii (zextract mval 1 1)
  if 0 ≥ byte1 then none
  else if 128 > byte1 then some (zextract mval (1 + 1) (1 + (byte1 - 1)))
  else if 192 > byte1 then some (zextract mval (2 + 1) (2 + get2bytedatalen byte1 mval 0))
  else some (zextract mval (3 + 1) (3 + get3bytedatalen byte1 mval 0))

/-- The body of the loop of `mvalPiece`: `hdrlen` and `datalen` of the column behind `cumullen`. -/
def mvalLengths (mval : List UInt8) (cumullen : Int) : Int × Int :=
  let byte1 := zascii (zextract mval (cumullen + 1) (cumullen + 1))
  if 0 = byte1 then (1, 0)
  else if 128 > byte1 then (1, byte1 - 1)
  else if 192 > byte1 then (2, get2bytedatalen byte1 mval cumullen)
  else (3, get3bytedatalen byte1 mval cumullen)

/-- `cumullen` after so many turns of the loop of `mvalPiece` that did not end it. -/
def cumullen (mval : List UInt8) : Nat → Int
  | 0 => 0
  | turns + 1 =>
    let before := cumullen mval turns
    before + ((mvalLengths mval before).1 + (mvalLengths mval before).2)

/-- `mvalPiece`. The pieces are counted from 1. -/
def mvalPiece (mval : List UInt8) (piecenum : Nat) : List UInt8 :=
  let before := cumullen mval (piecenum - 1)
  zextract mval (before + 1)
    (before + (mvalLengths mval before).1 + (mvalLengths mval before).2)

/-! ## The C decoder -/

/-- `get_mval_len`: the lengths of the header and of the data. There is no result when a byte that
it reads is not in the buffer. -/
def getMvalLen (buff : List UInt8) : Option (Nat × Nat) := do
  let byte1 := (← buff[0]?).toNat
  let (len, hdrLen) ←
    if byte1 = 0 then some (1, 1)
    else if byte1 < 128 then some (byte1, 1)
    else if byte1 < 192 then do
      let byte2 := (← buff[1]?).toNat
      some ((byte1 - 128) * 256 + byte2, 2)
    else do
      let byte2 := (← buff[1]?).toNat
      let byte3 := (← buff[2]?).toNat
      some ((byte1 - 192) * 65536 + byte2 * 256 + byte3, 3)
  some (hdrLen, len - hdrLen)

/-- A column of a row: where its header and its data begin, and where the next column does. -/
structure Boundary where
  header : Nat
  data : Nat
  next : Nat
deriving DecidableEq, Repr

/-- The loop over the columns in `send_result_rows` and `print_result_row`. The position is tested
behind a column, so a row has at least one. -/
def walkColumns (row : List UInt8) : Nat → Nat → Option (List Boundary)
  | 0, _ => none
  | fuel + 1, position => do
      let (hdrLen, dataLen) ← getMvalLen (row.drop position)
      let boundary := ⟨position, position + hdrLen, position + hdrLen + dataLen⟩
      if row.length ≤ boundary.next then some [boundary]
      else (walkColumns row fuel boundary.next).map (boundary :: ·)

/-- All columns of a row. Each takes a byte at least. -/
def walkRow (row : List UInt8) : Option (List Boundary) :=
  walkColumns row row.length 0

/-! ## Columns and their headers -/

/-- The values that `str2mval` can write: the length has to fit into three bytes. -/
def IsColumn (value : Option (List UInt8)) : Prop :=
  ∀ str ∈ value, str.length ≤ 1048573

/-- The data of a column. NULL has none. -/
def columnData (value : Option (List UInt8)) : List UInt8 :=
  value.getD []

/-- The header that `str2mval` writes. -/
def columnHeader (value : Option (List UInt8)) : List UInt8 :=
  match value with
  | none => [0]
  | some str =>
    if str.length < 127 then [UInt8.ofNat (1 + str.length)]
    else if str.length < 16382 then
      [UInt8.ofNat (128 + (str.length + 2) / 256), UInt8.ofNat ((str.length + 2) % 256)]
    else
      [UInt8.ofNat (192 + (str.length + 3) / 65536), UInt8.ofNat ((str.length + 3) / 256 % 256),
        UInt8.ofNat ((str.length + 3) % 256)]

theorem zchar_of_lt {code : Nat} (byte : code < 256) : zchar code = [UInt8.ofNat code] :=
  if_pos byte

variable {value : Option (List UInt8)} {header : List UInt8} {hdrLen dataLen : Nat}

theorem str2mval_eq (column : IsColumn value) :
    str2mval value = columnHeader value ++ columnData value := by
  cases value with
  | none => rfl
  | some str =>
    have short : str.length ≤ 1048573 := column str rfl
    unfold str2mval columnHeader
    dsimp only
    split
    · rw [zchar_of_lt (by omega)]
      rfl
    · split
      · rw [zchar_of_lt (by omega), zchar_of_lt (by omega)]
        rfl
      · rw [zchar_of_lt (by omega), zchar_of_lt (by omega), zchar_of_lt (by omega)]
        rfl

/-- The first byte of a header tells its length, and together they tell the length of the data. -/
inductive HeaderRead : List UInt8 → Nat → Nat → Prop
  | null : HeaderRead [0] 1 0
  | one {first : UInt8} {dataLen : Nat} (length : first.toNat = 1 + dataLen)
      (band : dataLen < 127) : HeaderRead [first] 1 dataLen
  | two {first second : UInt8} {high dataLen : Nat} (head : first.toNat = 128 + high)
      (band : high < 64) (length : high * 256 + second.toNat = dataLen + 2) :
      HeaderRead [first, second] 2 dataLen
  | three {first second third : UInt8} {high dataLen : Nat} (head : first.toNat = 192 + high)
      (length : high * 65536 + second.toNat * 256 + third.toNat = dataLen + 3) :
      HeaderRead [first, second, third] 3 dataLen

/-- The header of a column tells the length of its data. -/
theorem headerRead_columnHeader (column : IsColumn value) :
    HeaderRead (columnHeader value) (columnHeader value).length (columnData value).length := by
  cases value with
  | none => exact .null
  | some str =>
    have short : str.length ≤ 1048573 := column str rfl
    unfold columnHeader
    dsimp only
    split
    case isTrue band => exact .one (toNat_ofNat_of_lt (by omega)) band
    case isFalse =>
      split
      case isTrue =>
        refine .two (toNat_ofNat_of_lt (by omega)) (by omega) ?_
        rw [toNat_ofNat_of_lt (by omega)]
        exact div_add_mod' ..
      case isFalse =>
        refine .three (toNat_ofNat_of_lt (by omega)) ?_
        rw [toNat_ofNat_of_lt (by omega), toNat_ofNat_of_lt (by omega)]
        change _ = str.length + 3
        omega

/-- Only NULL has a zero in its first byte. -/
theorem head_columnHeader {str : List UInt8} (column : IsColumn (some str)) :
    ∃ first rest, columnHeader (some str) = first :: rest ∧ 0 < first.toNat := by
  have short : str.length ≤ 1048573 := column str rfl
  unfold columnHeader
  dsimp only
  split_ifs
  all_goals exact ⟨_, _, rfl, by rw [toNat_ofNat_of_lt (by omega)]; omega⟩

/-! ## Reading a header -/

/-- A byte behind some bytes, as `$ZASCII` of `$ZEXTRACT` sees it. -/
theorem zascii_zextract_append (before bytes : List UInt8) (index : Nat) {position : Int}
    (counted : position = before.length + index + 1) :
    zascii (zextract (before ++ bytes) position position) =
      (bytes[index]?.map fun byte => (byte.toNat : Int)).getD (-1) := by
  have same : position = ((before.length + index : Nat) : Int) + 1 := by omega
  rw [same, zascii_zextract, getElem?_append_right (Nat.le_add_right ..), Nat.add_sub_cancel_left]

section

variable (read : HeaderRead header hdrLen dataLen)
include read

/-- The M routine finds the lengths of a header. -/
theorem mvalLengths_of_headerRead (before rest : List UInt8) :
    mvalLengths (before ++ (header ++ rest)) before.length = (↑hdrLen, ↑dataLen) := by
  have byte : ∀ (index : Nat) {position : Int}, position = before.length + index + 1 →
      zascii (zextract (before ++ (header ++ rest)) position position) =
        ((header ++ rest)[index]?.map fun byte => (byte.toNat : Int)).getD (-1) :=
    fun index _ counted => zascii_zextract_append before _ index counted
  unfold mvalLengths get2bytedatalen get3bytedatalen
  rw [byte 0 (by omega), byte 1 (by omega), byte 2 (by omega)]
  cases read with
  | null => simp
  | one length band =>
    simp only [cons_append, getElem?_cons_zero, map_some, getD_some]
    rw [if_neg (by omega), if_pos (by omega)]
    exact Prod.ext rfl (by dsimp only; omega)
  | two head band length =>
    simp only [cons_append, getElem?_cons_zero, getElem?_cons_succ, map_some, getD_some]
    rw [if_neg (by omega), if_neg (by omega), if_pos (by omega)]
    exact Prod.ext rfl (by dsimp only; omega)
  | three head length =>
    simp only [cons_append, getElem?_cons_zero, getElem?_cons_succ, map_some, getD_some]
    rw [if_neg (by omega), if_neg (by omega), if_neg (by omega)]
    exact Prod.ext rfl (by dsimp only; omega)

/-- The C decoder finds the same lengths. -/
theorem getMvalLen_of_headerRead (rest : List UInt8) :
    getMvalLen (header ++ rest) = some (hdrLen, dataLen) := by
  cases read with
  | null => rfl
  | one length band => simp [getMvalLen, length, show 1 + dataLen < 128 by omega]
  | two head band length =>
    simp [getMvalLen, head, length, show 128 + _ < 192 from Nat.add_lt_add_left band 128]
  | @three first second third high dataLen head length =>
    simp [getMvalLen, head, length, show ¬ 192 + high < 128 by omega]

theorem headerLength_pos : 0 < hdrLen := by
  cases read <;> decide

end

/-! ## One column -/

theorem zextract_append (header text rest : List UInt8) :
    zextract (header ++ (text ++ rest)) (header.length + 1) (header.length + text.length) =
      text := by
  have last : ((header.length : Int) + text.length).toNat = header.length + text.length := rfl
  have first : ((header.length : Int) + 1).toNat - 1 = header.length := rfl
  rw [zextract, last, first, ← append_assoc, take_append_of_le_length (by simp),
    ← length_append, take_length, drop_left]

/-- `mval2str` finds the data where the loop of `mvalPiece` does. -/
theorem mval2str_eq (mval : List UInt8) :
    mval2str mval = if 0 ≥ zascii (zextract mval 1 1) then none
      else some (zextract mval ((mvalLengths mval 0).1 + 1)
        ((mvalLengths mval 0).1 + (mvalLengths mval 0).2)) := by
  unfold mval2str mvalLengths
  dsimp only
  rw [Int.zero_add]
  split
  · rfl
  · rw [if_neg (show ¬0 = zascii (zextract mval 1 1) by omega)]
    split_ifs <;> rfl

/-- A column comes back from its bytes. -/
theorem mval2str_str2mval (column : IsColumn value) : mval2str (str2mval value) = value := by
  have lengths : mvalLengths (columnHeader value ++ columnData value) 0 = _ :=
    mvalLengths_of_headerRead (headerRead_columnHeader column) [] (columnData value)
  have first : zascii (zextract (columnHeader value ++ columnData value) 1 1) = _ :=
    zascii_zextract (columnHeader value ++ columnData value) 0
  rw [str2mval_eq column, mval2str_eq, first, lengths]
  cases value with
  | none => rfl
  | some str =>
    obtain ⟨byte, rest, header, notNull⟩ := head_columnHeader column
    have data := zextract_append (columnHeader (some str)) str []
    rw [append_nil] at data
    rw [if_neg (by simpa [header] using Nat.ne_of_gt notNull)]
    exact congrArg some data

/-! ## Rows -/

/-- A row as the plan writes it. -/
def mvalRow (values : List (Option (List UInt8))) : List UInt8 :=
  values.flatMap str2mval

theorem mvalRow_take (values : List (Option (List UInt8))) {index : Nat}
    (inside : index < values.length) :
    mvalRow values = mvalRow (values.take index) ++
      (str2mval values[index] ++ mvalRow (values.drop (index + 1))) := by
  have split : values = values.take index ++ values[index] :: values.drop (index + 1) := by
    rw [← drop_eq_getElem_cons inside, take_append_drop]
  calc mvalRow values
      = mvalRow (values.take index ++ values[index] :: values.drop (index + 1)) := by
        rw [← split]
    _ = _ := by simp only [mvalRow, flatMap_append, flatMap_cons]

/-- The bytes of a column end where its header says, whatever follows. -/
theorem str2mval_append_inj {first second : Option (List UInt8)} {rest others : List UInt8}
    (firstColumn : IsColumn first) (secondColumn : IsColumn second)
    (same : str2mval first ++ rest = str2mval second ++ others) :
    first = second ∧ rest = others := by
  have lengths : (columnHeader first).length = (columnHeader second).length ∧
      (columnData first).length = (columnData second).length := by
    have firstRead := getMvalLen_of_headerRead (headerRead_columnHeader firstColumn)
      (columnData first ++ rest)
    have secondRead := getMvalLen_of_headerRead (headerRead_columnHeader secondColumn)
      (columnData second ++ others)
    rw [← append_assoc, ← str2mval_eq firstColumn, same, str2mval_eq secondColumn,
      append_assoc, secondRead] at firstRead
    simpa [eq_comm] using firstRead
  have length : (str2mval first).length = (str2mval second).length := by
    rw [str2mval_eq firstColumn, str2mval_eq secondColumn, length_append, length_append,
      lengths.1, lengths.2]
  obtain ⟨sameColumn, sameRest⟩ := append_inj same length
  refine ⟨?_, sameRest⟩
  rw [← mval2str_str2mval firstColumn, sameColumn, mval2str_str2mval secondColumn]

theorem str2mval_ne_nil (value : Option (List UInt8)) : str2mval value ≠ [] := by
  cases value with
  | none => decide
  | some str =>
    unfold str2mval
    dsimp only
    split
    · rw [zchar_of_lt (by omega)]
      simp
    · split
      · rw [zchar_of_lt (mod_lt _ (by decide))]
        simp
      · rw [zchar_of_lt (mod_lt (_ + 3) (by decide : 256 > 0))]
        simp

/-- A row has the columns that its bytes tell. -/
theorem mvalRow_inj {first second : List (Option (List UInt8))}
    (firstColumns : ∀ value ∈ first, IsColumn value)
    (secondColumns : ∀ value ∈ second, IsColumn value) (same : mvalRow first = mvalRow second) :
    first = second := by
  induction first generalizing second with
  | nil =>
    cases second with
    | nil => rfl
    | cons value rest => exact absurd same.symm (by simp [mvalRow, str2mval_ne_nil])
  | cons value rest ih =>
    cases second with
    | nil => exact absurd same (by simp [mvalRow, str2mval_ne_nil])
    | cons other others =>
      rw [forall_mem_cons] at firstColumns secondColumns
      obtain ⟨rfl, tails⟩ := str2mval_append_inj firstColumns.1 secondColumns.1 same
      rw [ih firstColumns.2 secondColumns.2 tails]

section

variable {values : List (Option (List UInt8))} (columns : ∀ value ∈ values, IsColumn value)
include columns

variable {index : Nat}

/-- The lengths of a column in its row. -/
theorem mvalLengths_mvalRow (inside : index < values.length) :
    mvalLengths (mvalRow values) (mvalRow (values.take index)).length =
      (↑(columnHeader values[index]).length, ↑(columnData values[index]).length) := by
  have column := columns _ (getElem_mem inside)
  rw [mvalRow_take values inside, str2mval_eq column, append_assoc]
  exact mvalLengths_of_headerRead (headerRead_columnHeader column) _ _

theorem length_mvalRow_take_succ (inside : index < values.length) :
    (mvalRow (values.take (index + 1))).length = (mvalRow (values.take index)).length +
      (columnHeader values[index]).length + (columnData values[index]).length := by
  have column := columns _ (List.getElem_mem inside)
  rw [take_succ_eq_append_getElem inside, mvalRow, flatMap_append, flatMap_singleton,
    str2mval_eq column, length_append, length_append, Nat.add_assoc]
  rfl

/-- The loop of `mvalPiece` passes whole columns. -/
theorem cumullen_mvalRow (inside : index ≤ values.length) :
    cumullen (mvalRow values) index = (mvalRow (values.take index)).length := by
  induction index with
  | zero => rfl
  | succ index ih =>
    have before := ih (le_of_succ_le inside)
    rw [cumullen, before, mvalLengths_mvalRow columns inside,
      length_mvalRow_take_succ columns inside]
    omega

section

variable (inside : index < values.length)
include inside

/-- `mvalPiece` finds the bytes of a column. -/
theorem mvalPiece_mvalRow :
    mvalPiece (mvalRow values) (index + 1) = str2mval values[index] := by
  have column := columns _ (List.getElem_mem inside)
  unfold mvalPiece
  dsimp only
  rw [Nat.add_sub_cancel, cumullen_mvalRow columns (Nat.le_of_lt inside),
    mvalLengths_mvalRow columns inside]
  have length : (str2mval values[index]).length =
      (columnHeader values[index]).length + (columnData values[index]).length := by
    rw [str2mval_eq column, length_append]
  have piece := zextract_append (mvalRow (values.take index)) (str2mval values[index])
    (mvalRow (values.drop (index + 1)))
  rw [← mvalRow_take values inside, length] at piece
  rw [← piece]
  push_cast
  rw [Int.add_assoc]

/-- The C decoder finds the lengths of a column in its row. -/
theorem getMvalLen_mvalRow :
    getMvalLen ((mvalRow values).drop (mvalRow (values.take index)).length) =
      some ((columnHeader values[index]).length, (columnData values[index]).length) := by
  have column := columns _ (getElem_mem inside)
  rw [mvalRow_take values inside, drop_left, str2mval_eq column, append_assoc]
  exact getMvalLen_of_headerRead (headerRead_columnHeader column) _

theorem length_mvalRow_lt :
    (mvalRow (values.take index)).length < (mvalRow (values.take (index + 1))).length := by
  have column := columns _ (getElem_mem inside)
  have := headerLength_pos (headerRead_columnHeader column)
  rw [length_mvalRow_take_succ columns inside]
  omega

/-- Where the loop of `mvalPiece` has the parts of a column. -/
def IsMvalBoundary (mval : List UInt8) (index : Nat) (boundary : Boundary) : Prop :=
  (boundary.header : Int) = cumullen mval index ∧
    (boundary.data : Int) = cumullen mval index + (mvalLengths mval (cumullen mval index)).1 ∧
    (boundary.next : Int) = cumullen mval (index + 1)

/-- One turn of the loop over the columns. -/
theorem walkColumns_succ (fuel : Nat) :
    ∃ boundary, IsMvalBoundary (mvalRow values) index boundary ∧
      walkColumns (mvalRow values) (fuel + 1) (mvalRow (values.take index)).length =
        if (mvalRow values).length ≤ (mvalRow (values.take (index + 1))).length then some [boundary]
        else (walkColumns (mvalRow values) fuel (mvalRow (values.take (index + 1))).length).map
          (boundary :: ·) := by
  have next := length_mvalRow_take_succ columns inside
  refine ⟨⟨(mvalRow (values.take index)).length,
    (mvalRow (values.take index)).length + (columnHeader values[index]).length,
    (mvalRow (values.take (index + 1))).length⟩, ?_, ?_⟩
  · refine ⟨(cumullen_mvalRow columns (Nat.le_of_lt inside)).symm, ?_,
      (cumullen_mvalRow columns inside).symm⟩
    rw [cumullen_mvalRow columns (Nat.le_of_lt inside), mvalLengths_mvalRow columns inside]
    exact Int.natCast_add ..
  · rw [walkColumns, getMvalLen_mvalRow columns inside, next]
    rfl

theorem length_mvalRow_le_iff :
    (mvalRow values).length ≤ (mvalRow (values.take (index + 1))).length ↔
      index + 1 = values.length := by
  constructor
  · intro short
    by_contra more
    have further : index + 1 < values.length := by omega
    have whole := congrArg length (mvalRow_take values further)
    have tail := headerLength_pos
      (headerRead_columnHeader (columns _ (getElem_mem further)))
    rw [str2mval_eq (columns _ (getElem_mem further))] at whole
    simp only [length_append] at whole
    omega
  · intro last
    exact Nat.le_of_eq (by rw [last, take_length])

end

theorem le_length_mvalRow_take (inside : index ≤ values.length) :
    index ≤ (mvalRow (values.take index)).length := by
  induction index with
  | zero => exact zero_le _
  | succ index ih =>
    exact Nat.lt_of_le_of_lt (ih (Nat.le_of_succ_le inside)) (length_mvalRow_lt columns inside)

/-- From a column on the C code visits the rest of the columns, at the boundaries that the M routine
finds, and comes to its end behind the last one. -/
theorem walkColumns_mvalRow (count : Nat) {fuel : Nat}
    (rest : index + (count + 1) = values.length) (enough : count < fuel) :
    ∃ boundaries, walkColumns (mvalRow values) fuel (mvalRow (values.take index)).length =
        some boundaries ∧ boundaries.length = count + 1 ∧
      ∀ further boundary, boundaries[further]? = some boundary →
        IsMvalBoundary (mvalRow values) (index + further) boundary := by
  induction count generalizing index fuel with
  | zero =>
    obtain ⟨fuel, rfl⟩ := Nat.exists_eq_add_of_lt enough
    rw [Nat.zero_add]
    obtain ⟨boundary, isBoundary, step⟩ :=
      walkColumns_succ columns (show index < values.length by omega) fuel
    rw [if_pos ((length_mvalRow_le_iff columns (by omega)).2 (by omega))] at step
    refine ⟨[boundary], step, rfl, fun further other found => ?_⟩
    obtain ⟨rfl, rfl⟩ : further = 0 ∧ boundary = other := by
      cases further <;> simp_all
    exact isBoundary
  | succ count ih =>
    obtain ⟨fuel, rfl⟩ : ∃ less, fuel = less + 1 := ⟨fuel - 1, by omega⟩
    obtain ⟨boundary, isBoundary, step⟩ :=
      walkColumns_succ columns (show index < values.length by omega) fuel
    have more := (length_mvalRow_le_iff columns (show index < values.length by omega)).not.2
      (by omega)
    obtain ⟨boundaries, walked, length, all⟩ := ih (show index + 1 + (count + 1) = _ by omega)
      (lt_of_succ_lt_succ enough)
    rw [if_neg more, walked] at step
    refine ⟨boundary :: boundaries, step, by rw [length_cons, length], ?_⟩
    intro further other found
    cases further with
    | zero =>
      obtain rfl : boundary = other := by simpa using found
      exact isBoundary
    | succ further =>
      rw [add_succ, ← succ_add]
      exact all further other (by simpa using found)

end

/-- Every column comes back from its row, and the C code visits the columns at the boundaries that
the M routine finds. -/
theorem mval2str_mvalPiece_mvalRow (values : List (Option (List UInt8)))
    (columns : ∀ value ∈ values, IsColumn value) :
    (∀ index value, values[index]? = some value →
        mval2str (mvalPiece (mvalRow values) (index + 1)) = value) ∧
      (values ≠ [] → ∃ boundaries, walkRow (mvalRow values) = some boundaries ∧
        boundaries.length = values.length ∧
        ∀ index boundary, boundaries[index]? = some boundary →
          IsMvalBoundary (mvalRow values) index boundary) := by
  constructor
  · intro index value found
    obtain ⟨inside, rfl⟩ := List.getElem?_eq_some_iff.1 found
    rw [mvalPiece_mvalRow columns inside, mval2str_str2mval (columns _ (List.getElem_mem inside))]
  · intro nonempty
    have first : 0 < values.length := length_pos_iff.2 nonempty
    have long := le_length_mvalRow_take columns (Nat.le_refl values.length)
    rw [take_length] at long
    have enough : values.length - 1 < (mvalRow values).length := by omega
    obtain ⟨boundaries, walked, length, all⟩ := walkColumns_mvalRow columns (values.length - 1)
      (show 0 + (values.length - 1 + 1) = values.length by omega) enough
    refine ⟨boundaries, walked, by omega, fun index boundary found => ?_⟩
    have := all index boundary found
    rwa [Nat.zero_add] at this

/-- NULL, a text with a header of several bytes, and the empty string. -/
theorem mval2str_mvalPiece_null :
    let long : List UInt8 := List.replicate 20000 65
    mval2str (mvalPiece (mvalRow [none, some long, some []]) 2) = some long ∧
      mval2str (mvalPiece (mvalRow [none, some long, some []]) 3) = some [] := by
  intro long
  have length : long.length = 20000 := length_replicate
  clear_value long
  have columns : ∀ value ∈ [none, some long, some []], IsColumn value := by
    simp [IsColumn, length]
  obtain ⟨back, -⟩ := mval2str_mvalPiece_mvalRow _ columns
  exact ⟨back 1 _ rfl, back 2 _ rfl⟩

end Octo.PlanHelpers
