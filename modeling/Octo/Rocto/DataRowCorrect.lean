import Octo.Rocto.DataRow

/-!
# What a data row carries

A data row is right when its length field counts the bytes that were written and the reader finds
every column in it again. Two things decide that. The sizes of the types must agree with what is
written for the columns in binary format, and no value may stand behind a NULL: the reader walks
back one byte after a NULL, so the length that it reads next starts inside the length of the NULL.
-/
namespace Octo.Rocto

open Octo.Foundation List Option DataRowParm Memory

variable {parm : DataRowParm} {memory : Memory}

/-! ## The columns of a message -/

/-- The bytes that stand for the value of a column in its format. -/
def DataRowParm.sent (parm : DataRowParm) : Option (List UInt8) :=
  if parm.isBinary && parm.columnType == .int4 then
    parm.value.map fun bytes => int32Bytes (strtol bytes)
  else parm.value

/-- How many bytes stand for the value. -/
def DataRowParm.sentLength (parm : DataRowParm) : Int :=
  (parm.sent.getD []).length

/-- The first pass counts the column with the size of its type. -/
def DataRowParm.hasFixedSize (parm : DataRowParm) : Bool :=
  parm.isBinary && decide (0 ≤ getTypeSize parm.columnType)

/-- The columns that are counted with the size of their type. -/
def fixedColumns (parms : List DataRowParm) : List DataRowParm :=
  parms.filter DataRowParm.hasFixedSize

/-- The sizes of the types add up to what is written for those columns. -/
def FixedSizesMatch (parms : List DataRowParm) : Prop :=
  ((fixedColumns parms).map fun parm => getTypeSize parm.columnType).sum =
    ((fixedColumns parms).map DataRowParm.sentLength).sum

/-- No value stands behind a NULL. -/
def NullsLast (parms : List DataRowParm) : Prop :=
  parms.Pairwise fun before behind => before.value = none → behind.value = none

/-- A column as the reader has to report it: the length -1 for NULL, otherwise the length of the
value and a place where the value stands. -/
def Reported (memory : Memory) (parm : DataRowParm) (read : ReadParm) : Prop :=
  match parm.sent with
  | none => read.length = -1
  | some bytes => read.length = bytes.length ∧ memory.Holds read.value bytes

/-- The length field counts the written bytes and every column is read back. -/
structure RoundTrip (behind around : Memory) (row : DataRowParms) (message : DataRow) : Prop where
  length : message.length = message.bytesWritten
  columns : List.Forall₂ (Reported (copied behind around message)) row.parms
    (readDataRow behind around message)

instance (parms : List DataRowParm) : Decidable (FixedSizesMatch parms) :=
  inferInstanceAs (Decidable (_ = _))

instance (parms : List DataRowParm) : Decidable (NullsLast parms) :=
  inferInstanceAs (Decidable (List.Pairwise _ _))

@[simp] theorem length_int32Bytes (number : Int) : (int32Bytes number).length = 4 :=
  rfl

@[simp] theorem length_bytes32 (number : Nat) : (bytes32 number).length = 4 :=
  rfl

theorem sent_eq_none (parm : DataRowParm) : parm.sent = none ↔ parm.value = none := by
  unfold sent
  split
  · exact map_eq_none_iff
  · exact Iff.rfl

variable {bytes : List UInt8} {message : DataRow} {address : Int} {row : DataRowParms}
  (parms : List DataRowParm) (behind around : Memory)

theorem sent_length_lt (short : ∀ value ∈ parm.value, value.length < 2147483648)
    (sent : parm.sent = some bytes) : bytes.length < 2147483648 := by
  unfold DataRowParm.sent at sent
  split at sent
  · obtain ⟨value, -, rfl⟩ := map_eq_some_iff.mp sent
    rw [length_int32Bytes]
    omega
  · exact short bytes sent

/-- A column that is written stands in the message as its length and the bytes of its value. -/
theorem write_eq (written : parm.write = some bytes) : copyTextParm parm.sent = bytes := by
  obtain ⟨isBinary, columnType, value⟩ := parm
  cases isBinary with
  | false => exact some.inj written
  | true =>
    cases columnType with
    | int4 =>
      cases value with
      | none => exact some.inj written
      | some text =>
        have converted := written
        simp only [write, Bool.not_true, Bool.false_eq_true, if_false]
          at converted
        split at converted
        · exact some.inj converted
        · exact absurd converted (by simp)
    | _ => exact some.inj written

theorem mapM_write {parms : List DataRowParm} {columns : List (List UInt8)}
    (written : parms.mapM write = some columns) :
    columns = parms.map fun parm => copyTextParm parm.sent := by
  induction parms generalizing columns with
  | nil => exact (some.inj written).symm
  | cons parm parms ih =>
    rw [mapM_cons] at written
    obtain ⟨bytes, first, written⟩ := bind_eq_some_iff.mp written
    obtain ⟨rest, others, written⟩ := bind_eq_some_iff.mp written
    rw [← some.inj written, map_cons, write_eq first, ih others]

/-- What `make_data_row` builds, in one equation. -/
theorem makeDataRow_eq (built : makeDataRow row = some message) :
    message = ⟨(row.parms.map counted).sum + 4 + 2, row.parms.length,
      row.parms.flatMap fun parm => copyTextParm parm.sent⟩ := by
  obtain ⟨columns, written, built⟩ := bind_eq_some_iff.mp built
  rw [← some.inj built, mapM_write written, flatMap_def]

/-! ## The length field -/

theorem length_copyTextParm (value : Option (List UInt8)) :
    ((copyTextParm value).length : Int) = (value.getD []).length + 4 := by
  cases value with
  | none => rfl
  | some bytes =>
    rw [copyTextParm, length_append, length_bytes32, getD_some]
    push_cast
    ring

theorem length_written :
    ((parms.flatMap fun parm => copyTextParm parm.sent).length : Int) =
      (parms.map sentLength).sum + 4 * parms.length := by
  induction parms with
  | nil => rfl
  | cons parm parms ih =>
    rw [flatMap_cons, length_append, Nat.cast_add, ih, length_copyTextParm,
      map_cons, sum_cons, length_cons, sentLength]
    push_cast
    ring

/-- A column of a variable size is counted with what is written for it. -/
theorem counted_variable (varying : ¬parm.hasFixedSize = true) :
    parm.counted = parm.sentLength + 4 := by
  obtain ⟨isBinary, columnType, value⟩ := parm
  cases isBinary with
  | false => rfl
  | true => cases columnType <;> first | rfl | exact absurd rfl varying

theorem counted_fixed (fixed : parm.hasFixedSize = true) :
    parm.counted = getTypeSize parm.columnType + 4 := by
  rw [hasFixedSize, Bool.and_eq_true, decide_eq_true_eq] at fixed
  rw [counted, fixed.1, if_neg (by simp), if_neg (by omega)]

/-- The first pass and the second pass differ by what the fixed sizes differ from their values. -/
theorem sum_counted :
    (parms.map counted).sum + ((fixedColumns parms).map sentLength).sum =
      (parms.map sentLength).sum + 4 * parms.length +
        ((fixedColumns parms).map fun parm => getTypeSize parm.columnType).sum := by
  induction parms with
  | nil => rfl
  | cons parm parms ih =>
    simp only [map_cons, sum_cons, length_cons]
    by_cases fixed : parm.hasFixedSize = true
    · rw [fixedColumns, filter_cons_of_pos fixed, ← fixedColumns, counted_fixed fixed]
      simp only [map_cons, sum_cons]
      omega
    · rw [fixedColumns, filter_cons_of_neg fixed, ← fixedColumns, counted_variable fixed]
      omega

theorem length_eq_bytesWritten (built : makeDataRow row = some message) :
    message.length = message.bytesWritten ↔ FixedSizesMatch row.parms := by
  have balance := sum_counted row.parms
  rw [makeDataRow_eq built, DataRow.bytesWritten, length_written, FixedSizesMatch]
  show _ + 4 + 2 = (4 : Int) + 2 + _ ↔ _
  constructor <;> intro equal <;> omega

/-! ## The columns that the reader finds -/

/-- The bytes of the columns stand in the copy when the length field counts them. -/
theorem holds_copied (length : message.length = message.bytesWritten) :
    (copied behind around message).Holds 0 message.data := by
  apply holds_of_getElem?
  intro index byte found
  have inside : index < message.data.length := (List.getElem?_eq_some_iff.mp found).1
  have counted : message.length = 4 + 2 + message.data.length := length
  rw [Int.zero_add, copied, if_pos (by omega), Int.toNat_natCast, found, getD_some]

theorem int32At_nullLength
    (all : ∀ position, address ≤ position → position < address + 4 → memory position = 255) :
    memory.int32At address = -1 := by
  rw [int32At, all address (by omega) (by omega), all (address + 1) (by omega) (by omega),
    all (address + 2) (by omega) (by omega), all (address + 3) (by omega) (by omega)]
  decide

theorem int32At_length (short : bytes.length < 2147483648)
    (holds : memory.Holds address (copyTextParm (some bytes))) :
    memory.int32At address = bytes.length :=
  (int32At_of_holds holds).trans (int32_bytes short)

section Columns

variable {parms : List DataRowParm} {cursor start : Int}

theorem reported_null {read : ReadParm} (null : parm.value = none) :
    Reported memory parm read ↔ read.length = -1 := by
  rw [Reported, (sent_eq_none parm).mpr null]

theorem holds_columns_cons :
    memory.Holds start ((parm :: parms).flatMap fun parm => copyTextParm parm.sent) ↔
      memory.Holds start (copyTextParm parm.sent) ∧
        memory.Holds (start + (parm.sentLength + 4))
          (parms.flatMap fun parm => copyTextParm parm.sent) := by
  rw [flatMap_cons, holds_append, length_copyTextParm, sentLength]

/-- After a NULL the reader stands inside the bytes of its length. It still reads a NULL for a NULL
and stays inside the lengths of the NULLs. -/
theorem gap_null (null : parm.value = none)
    (gap : ∀ position, cursor ≤ position → position < start → memory position = 255)
    (holds : memory.Holds start (copyTextParm parm.sent)) :
    ∀ position, cursor ≤ position → position < start + 4 → memory position = 255 := by
  rw [(sent_eq_none parm).mpr null] at holds
  intro position above below
  by_cases before : position < start
  · exact gap position above before
  · exact eq_of_holds_four holds (by omega) below

theorem sentLength_null (null : parm.value = none) : parm.sentLength = 0 := by
  rw [sentLength, (sent_eq_none parm).mpr null]
  rfl

/-- Behind a NULL the reader lags behind the columns. It reads the NULLs there and no value: the
length found for a value starts with a byte of the NULL. -/
theorem reported_iff_nulls (inside : cursor < start)
    (gap : ∀ position, cursor ≤ position → position < start → memory position = 255)
    (holds : memory.Holds start (parms.flatMap fun parm => copyTextParm parm.sent)) :
    Forall₂ (Reported memory) parms (readDataRowParms memory parms.length cursor) ↔
      ∀ parm ∈ parms, parm.value = none := by
  induction parms generalizing cursor start with
  | nil => exact iff_of_true .nil (by simp)
  | cons parm parms ih =>
    obtain ⟨here, rest⟩ := holds_columns_cons.mp holds
    rw [length_cons, readDataRowParms, forall₂_cons, forall_mem_cons]
    by_cases null : parm.value = none
    · rw [sentLength_null null] at rest
      have wider := gap_null null gap here
      have read : memory.int32At cursor = -1 :=
        int32At_nullLength fun position above below => wider position above (by omega)
      refine and_congr (iff_of_true ((reported_null null).mpr read) null) ?_
      exact ih (by omega) (fun position above below => wider position (by omega) below) rest
    · refine iff_of_false (fun both => ?_) fun both => null both.1
      have negative : memory.int32At cursor < 0 := by
        rw [int32At, gap cursor (by omega) inside]
        exact int32_neg_of_first (by decide)
      obtain ⟨bytes, sent⟩ := ne_none_iff_exists'.mp (mt (sent_eq_none parm).mp null)
      have first := both.1
      rw [Reported, sent] at first
      have length : memory.int32At cursor = bytes.length := first.1
      omega

/-- The reader finds the columns again exactly when no value stands behind a NULL. -/
theorem readDataRowParms_reported
    (short : ∀ parm ∈ parms, ∀ bytes ∈ parm.value, bytes.length < 2147483648)
    (holds : memory.Holds cursor (parms.flatMap fun parm => copyTextParm parm.sent)) :
    Forall₂ (Reported memory) parms (readDataRowParms memory parms.length cursor) ↔
      NullsLast parms := by
  induction parms generalizing cursor with
  | nil => exact iff_of_true .nil .nil
  | cons parm parms ih =>
    obtain ⟨here, rest⟩ := holds_columns_cons.mp holds
    rw [NullsLast, pairwise_cons]
    show Forall₂ (Reported memory) (parm :: parms) (_ :: _) ↔ _
    rw [forall₂_cons]
    cases sent : parm.sent with
    | none =>
      have null := (sent_eq_none parm).mp sent
      rw [sentLength_null null] at rest
      rw [sent] at here
      have gap : ∀ position, cursor ≤ position → position < cursor + 4 →
          memory position = 255 := fun position => eq_of_holds_four here
      have read : memory.int32At cursor = -1 := int32At_nullLength gap
      have inside : cursor + 4 + -1 < cursor + 4 := by omega
      have lag : ∀ position, cursor + 4 + -1 ≤ position → position < cursor + 4 →
          memory position = 255 := fun position above => gap position (by omega)
      rw [read]
      rw [reported_iff_nulls inside lag rest]
      constructor
      · rintro ⟨-, nulls⟩
        exact ⟨fun other member _ => nulls other member,
          pairwise_iff_forall_sublist.mpr fun pair _ =>
            nulls _ (pair.subset (mem_cons_of_mem _ mem_cons_self))⟩
      · rintro ⟨nulls, -⟩
        exact ⟨(reported_null null).mpr rfl, fun other member => nulls other member null⟩
    | some bytes =>
      have value : parm.value ≠ none := fun null => by
        rw [(sent_eq_none parm).mpr null] at sent
        exact some_ne_none bytes sent.symm
      rw [sent] at here
      have length := int32At_length (sent_length_lt (short parm mem_cons_self) sent) here
      have place : (cursor + 4 + memory.int32At cursor) = cursor + (parm.sentLength + 4) := by
        rw [sentLength, sent, getD_some]
        omega
      rw [place, ih (forall_mem_of_forall_mem_cons short) rest]
      have found : memory.Holds (cursor + 4) bytes := (holds_append.mp here).2
      have reported : Reported memory parm ⟨memory.int32At cursor, cursor + 4⟩ := by
        rw [Reported, sent]
        exact ⟨length, found⟩
      exact and_congr (iff_of_true reported fun _ _ null => absurd null value) Iff.rfl

end Columns

/-! ## The round trip -/

theorem readDataRow_eq (message : DataRow) :
    readDataRow behind around message =
      readDataRowParms (copied behind around message) message.numColumns 0 := by
  unfold readDataRow
  split
  · rename_i empty
    rw [empty, readDataRowParms]
  · rfl

/-- A data row is written and read back exactly when the fixed sizes match and no value stands
behind a NULL. -/
theorem roundTrip_iff (behind around : Memory) (row : DataRowParms) (message : DataRow)
    (built : makeDataRow row = some message) :
    RoundTrip behind around row message ↔ FixedSizesMatch row.parms ∧ NullsLast row.parms := by
  have sizes := length_eq_bytesWritten built
  have columns (length : message.length = message.bytesWritten) :
      List.Forall₂ (Reported (copied behind around message)) row.parms
        (readDataRow behind around message) ↔ NullsLast row.parms := by
    have holds := holds_copied behind around length
    have count : message.numColumns = row.parms.length := by rw [makeDataRow_eq built]
    have data : message.data = row.parms.flatMap fun parm => copyTextParm parm.sent := by
      rw [makeDataRow_eq built]
    rw [data] at holds
    rw [readDataRow_eq, count, readDataRowParms_reported row.length_lt holds]
  constructor
  · rintro ⟨length, reported⟩
    exact ⟨sizes.mp length, (columns length).mp reported⟩
  · rintro ⟨fixed, nulls⟩
    exact ⟨sizes.mpr fixed, (columns (sizes.mpr fixed)).mpr nulls⟩

/-- A row with an integer, a text and a NULL behind them. -/
def integerTextNull : DataRowParms where
  parms := [⟨true, .int4, some [52, 50]⟩, ⟨false, .varchar, some [97]⟩, ⟨false, .varchar, none⟩]
  count_lt := by decide
  length_lt := by decide

theorem roundTrip_integerTextNull :
    ∃ message, makeDataRow integerTextNull = some message ∧
      RoundTrip (fun _ => 0) (fun _ => 0) integerTextNull message := by
  refine ⟨_, rfl, (roundTrip_iff (fun _ => 0) (fun _ => 0) integerTextNull _ rfl).mpr ?_⟩
  decide

/-- A row with a text behind a NULL. -/
def nullText : DataRowParms where
  parms := [⟨false, .varchar, none⟩, ⟨false, .varchar, some [97]⟩]
  count_lt := by decide
  length_lt := by decide

/-- A row with an integer that is NULL, in binary format. -/
def nullInteger : DataRowParms where
  parms := [⟨true, .int4, none⟩]
  count_lt := by decide
  length_lt := by decide

/-- The text behind the NULL is read as a column of a negative length, and the message of the
integer claims four bytes more than it has. -/
theorem nullText_not_roundTrip :
    (∃ message, makeDataRow nullText = some message ∧
      readDataRow (fun _ => 0) (fun _ => 0) message = [⟨-1, 4⟩, ⟨-16777216, 7⟩] ∧
      ¬RoundTrip (fun _ => 0) (fun _ => 0) nullText message) ∧
    ∃ message, makeDataRow nullInteger = some message ∧
      message.length = 14 ∧ message.bytesWritten = 10 ∧
      ¬RoundTrip (fun _ => 0) (fun _ => 0) nullInteger message := by
  have read : readDataRow (fun _ => 0) (fun _ => 0)
      ⟨15, 2, [255, 255, 255, 255, 0, 0, 0, 1, 97]⟩ = [⟨-1, 4⟩, ⟨-16777216, 7⟩] := by decide
  refine ⟨⟨⟨15, 2, [255, 255, 255, 255, 0, 0, 0, 1, 97]⟩, rfl, read, fun trip => ?_⟩,
    _, rfl, rfl, rfl, fun trip => ?_⟩
  · have columns := trip.columns
    obtain ⟨-, second⟩ := List.forall₂_cons.mp columns
    obtain ⟨length, -⟩ := (List.forall₂_cons.mp second).1
    exact absurd length (by decide)
  · exact absurd trip.length (by decide)

end Octo.Rocto
