import Mathlib

/-!
# Rows of a portal

An Execute message asks for at most so many rows of a portal. `send_result_rows` sends them, stores
how many rows are left and suspends the portal, and a later Execute on the same cursor goes on from
what was stored. Rows are counted from 1.

The first row of a resumed portal is `total_rows - rows_remaining`, which is the last row that was
sent and not the one behind it. A portal is therefore served correctly if and only if it is never
resumed.
-/
namespace Octo.Rocto

open List Nat

variable {Row : Type}
variable {rows : List Row}

/-- `INT32_MAX`. -/
def int32Max : Nat := 2147483647

/-- An integer that was read with `strtol` and has to fit into 32 bits without a sign. -/
def readInt32 (value : Int) : Option Int :=
  if 0 ≤ value ∧ value ≤ int32Max then some value else none

/-- The value of a row in the output key of the cursor. -/
def fetchRow (rows : List Row) (curRow : Int) : Option Row :=
  if 1 ≤ curRow then rows[(curRow - 1).toNat]? else none

/-- The loop over the rows: what was sent, and whether it has come to its end. -/
def sendRows (rows : List Row) : Nat → Int → List (Int × Row) × Bool
  | 0, _ => ([], true)
  | turns + 1, curRow =>
    match fetchRow rows curRow with
    | none => ([], false)
    | some row =>
      -- `cur_row++` must not overflow.
      if curRow = int32Max then ([(curRow, row)], false)
      else
        let (rest, ended) := sendRows rows turns (curRow + 1)
        ((curRow, row) :: rest, ended)

/-- What `send_result_rows` returns. -/
inductive RowsStatus where
  | complete
  | failed
  | portalSuspended
deriving DecidableEq, Repr

/-- The answer to one Execute. -/
structure Reply (Row : Type) where
  /-- The limit of the Execute. -/
  limit : Int
  sent : List (Int × Row)
  status : RowsStatus
  /-- The node `rows_remaining` of the portal afterwards. -/
  rowsRemaining : Option Int

/-- What a portal has besides its rows. -/
structure Portal where
  numColumns : Nat
  /-- The number of format codes in the Bind message. -/
  numFormatCodes : Nat

/-- The columns can be counted: their number is at most `INT16_MAX`. -/
def Portal.columnsFit (portal : Portal) : Bool :=
  decide (portal.numColumns ≤ 32767)

/-- The columns can be counted, and there is one format for all of them or one for each. -/
def Portal.formatsFit (portal : Portal) : Bool :=
  portal.columnsFit &&
    (decide (portal.numFormatCodes ≤ 1) || decide (portal.numFormatCodes = portal.numColumns))

/-- The number of rows that remain, and the first row to be sent. -/
def resumeAt (totalRows : Int) (rowsRemaining : Option Int) : Option (Int × Int) :=
  match rowsRemaining with
  | none => some (totalRows, 1)
  | some stored => (readInt32 stored).map fun remaining => (remaining, totalRows - remaining)

/-- The last row to be sent. -/
def lastRow (totalRows remaining curRow maxDataToSend : Int) : Int :=
  if remaining ≤ maxDataToSend then totalRows else curRow + maxDataToSend - 1

/-- `send_result_rows` for an Execute message. -/
def sendResultRows (portal : Portal) (rows : List Row) (rowsRemaining : Option Int)
    (limit : Int) : Reply Row :=
  match portal.columnsFit, readInt32 rows.length with
  | false, _ | _, none => ⟨limit, [], .failed, rowsRemaining⟩
  | true, some totalRows =>
    if totalRows = 0 then ⟨limit, [], .complete, rowsRemaining⟩
    else
      let maxDataToSend := if limit ≤ 0 then totalRows else limit
      if portal.formatsFit then
        match resumeAt totalRows rowsRemaining with
        | none => ⟨limit, [], .failed, rowsRemaining⟩
        | some (remaining, curRow) =>
          let last := lastRow totalRows remaining curRow maxDataToSend
          match sendRows rows (last - curRow + 1).toNat curRow with
          | (sent, false) => ⟨limit, sent, .failed, rowsRemaining⟩
          | (sent, true) =>
            if remaining - sent.length = 0 then ⟨limit, sent, .complete, rowsRemaining⟩
            else ⟨limit, sent, .portalSuspended, some (remaining - sent.length)⟩
      else ⟨limit, [], .failed, rowsRemaining⟩

/-- A sequence of Execute messages: the cursor is kept only while the portal is suspended. -/
def serve (portal : Portal) (rows : List Row) : Option Int → List Int → List (Reply Row)
  | _, [] => []
  | rowsRemaining, limit :: rest =>
    let reply := sendResultRows portal rows rowsRemaining limit
    reply :: if reply.status = .portalSuspended then serve portal rows reply.rowsRemaining rest
      else []

/-! ## Rows in their order -/

/-- The rows with their numbers. -/
def numbered : Int → List Row → List (Int × Row)
  | _, [] => []
  | first, row :: rest => (first, row) :: numbered (first + 1) rest

@[simp]
theorem length_numbered (first : Int) (rows : List Row) :
    (numbered first rows).length = rows.length := by
  induction rows generalizing first with
  | nil => rfl
  | cons row rest ih => simp [numbered, ih]

theorem fst_of_numbered {first : Int} {position : Nat} {entry : Int × Row}
    (found : (numbered first rows)[position]? = some entry) : entry.1 = first + position := by
  induction rows generalizing first position with
  | nil => simp at found
  | cons row rest ih =>
    cases position with
    | zero =>
      obtain rfl : (first, row) = entry := by simpa [numbered] using found
      simp
    | succ position =>
      have later : (numbered (first + 1) rest)[position]? = some entry := by
        simpa [numbered] using found
      rw [ih later]
      omega

theorem numbered_take (first : Int) (rows : List Row) (count : Nat) :
    numbered first (rows.take count) = (numbered first rows).take count := by
  induction rows generalizing first count with
  | nil => simp [numbered]
  | cons row rest ih =>
    cases count with
    | zero => rfl
    | succ count => simp [numbered, ih]

theorem fetchRow_succ (rows : List Row) (position : Nat) :
    fetchRow rows (position + 1) = rows[position]? := by
  unfold fetchRow
  rw [if_pos (by omega)]
  congr 1
  omega

/-- The loop sends the rows from the current one on. -/
theorem sendRows_eq (rows : List Row) (turns position : Nat)
    (inRange : position + turns ≤ rows.length) (small : position + turns < int32Max) :
    sendRows rows turns (position + 1) =
      (numbered (position + 1) ((rows.drop position).take turns), true) := by
  induction turns generalizing position with
  | zero => simp [sendRows, numbered]
  | succ turns ih =>
    have here : position < rows.length := by omega
    have notLast : (position : Int) + 1 ≠ int32Max := by omega
    have rest := ih (position + 1) (by omega) (by omega)
    push_cast at rest
    rw [sendRows, fetchRow_succ, getElem?_eq_getElem here]
    dsimp only
    rw [if_neg notLast, rest, drop_eq_getElem_cons here]
    rfl

/-- The loop does not come to its end at the largest number. -/
theorem sendRows_overflow (rows : List Row) (turns position : Nat) (some : 0 < turns)
    (last : position + turns = int32Max) : (sendRows rows turns (position + 1)).2 = false := by
  induction turns generalizing position with
  | zero => omega
  | succ turns ih =>
    rw [sendRows]
    split
    case h_1 => rfl
    case h_2 row _ =>
      split
      case isTrue => rfl
      case isFalse notLast =>
        have more : 0 < turns := by omega
        have rest := ih (position + 1) more (by omega)
        exact rest

/-- The first row of a loop that makes a turn is the current one. -/
theorem head_sendRows {turns position : Nat} (some : 0 < turns) (inRange : position < rows.length) :
    ∃ row rest, (sendRows rows turns (position + 1)).1 = ((position : Int) + 1, row) :: rest := by
  obtain ⟨turns, rfl⟩ := exists_eq_succ_of_ne_zero some.ne'
  rw [sendRows, fetchRow_succ, getElem?_eq_getElem inRange]
  dsimp only
  split
  case isTrue => exact ⟨_, _, rfl⟩
  case isFalse => exact ⟨_, _, rfl⟩

/-! ## One Execute -/

section Execute

variable {portal : Portal} {limit : Int}

theorem readInt32_length (small : rows.length ≤ int32Max) :
    readInt32 rows.length = some (rows.length : Int) :=
  if_pos ⟨Int.natCast_nonneg _, by exact_mod_cast small⟩

theorem columnsFit_of_formatsFit (fits : portal.formatsFit = true) : portal.columnsFit = true :=
  (Bool.and_eq_true_iff.mp fits).1

/-- An Execute that finds rows, their formats and where to go on. -/
theorem sendResultRows_eq {rowsRemaining : Option Int} {remaining curRow : Int}
    (nonempty : rows ≠ []) (small : rows.length ≤ int32Max) (fits : portal.formatsFit = true)
    (resumes : resumeAt rows.length rowsRemaining = some (remaining, curRow))
    (positive : 0 < limit) :
    sendResultRows portal rows rowsRemaining limit =
      match sendRows rows (lastRow rows.length remaining curRow limit - curRow + 1).toNat
        curRow with
      | (sent, false) => ⟨limit, sent, .failed, rowsRemaining⟩
      | (sent, true) =>
        if remaining - sent.length = 0 then ⟨limit, sent, .complete, rowsRemaining⟩
        else ⟨limit, sent, .portalSuspended, some (remaining - sent.length)⟩ := by
  have isSome : (rows.length : Int) ≠ 0 := by
    simpa using nonempty
  rw [sendResultRows, columnsFit_of_formatsFit fits, readInt32_length small]
  dsimp only
  rw [if_neg isSome, if_pos fits, resumes, if_neg (not_le.mpr positive)]

/-- The first Execute, if it asks for all rows. -/
theorem sendResultRows_all (nonempty : rows ≠ []) (small : rows.length < int32Max)
    (fits : portal.formatsFit = true) (positive : 0 < limit) (all : (rows.length : Int) ≤ limit) :
    sendResultRows portal rows none limit = ⟨limit, numbered 1 rows, .complete, none⟩ := by
  have loop := sendRows_eq rows rows.length 0 (by simp) (by simpa using small)
  have turns : ((rows.length : Int) - 1 + 1).toNat = rows.length := by omega
  rw [sendResultRows_eq nonempty small.le fits rfl positive, lastRow, if_pos all, turns]
  simp only [cast_zero, zero_add] at loop
  rw [loop]
  simp

section

variable (small : rows.length ≤ int32Max) (fits : portal.formatsFit = true) (positive : 0 < limit)
include small fits positive

/-- The first Execute, if it asks for less. -/
theorem sendResultRows_some (less : limit < rows.length) :
    sendResultRows portal rows none limit =
      ⟨limit, (numbered 1 rows).take limit.toNat, .portalSuspended,
        some (rows.length - limit)⟩ := by
  have nonempty : rows ≠ [] := by
    rintro rfl
    simp at less
    omega
  have loop := sendRows_eq rows limit.toNat 0 (by omega) (by omega)
  have turns : ((1 : Int) + limit - 1 - 1 + 1).toNat = limit.toNat := by omega
  rw [sendResultRows_eq nonempty small fits rfl positive, lastRow, if_neg (not_le.mpr less), turns]
  simp only [cast_zero, zero_add, drop_zero, numbered_take] at loop
  have length : (((numbered 1 rows).take limit.toNat).length : Int) = limit := by
    rw [length_take, length_numbered]
    omega
  rw [loop]
  dsimp only
  rw [length, if_neg (by omega)]

/-- A resumed Execute begins with the last row that was sent. -/
theorem sendResultRows_resumed {sentBefore : Nat} (before : 0 < sentBefore)
    (less : sentBefore < rows.length) :
    ∃ row rest, (sendResultRows portal rows (some (rows.length - sentBefore)) limit).sent =
      ((sentBefore : Int), row) :: rest := by
  have nonempty : rows ≠ [] := by
    rintro rfl
    simp at less
  have resumes : resumeAt rows.length (some ((rows.length : Int) - sentBefore)) =
      some ((rows.length : Int) - sentBefore, (sentBefore : Int)) := by
    have stored : readInt32 ((rows.length : Int) - sentBefore) =
        some ((rows.length : Int) - sentBefore) :=
      if_pos (by omega)
    rw [resumeAt, stored]
    simp
  obtain ⟨position, rfl⟩ := exists_eq_succ_of_ne_zero before.ne'
  have turns : 0 < (lastRow rows.length ((rows.length : Int) - (position.succ : Nat))
      (position.succ : Nat) limit - (position.succ : Nat) + 1).toNat := by
    unfold lastRow
    split <;> omega
  obtain ⟨row, rest, head⟩ := head_sendRows turns (by omega : position < rows.length)
  refine ⟨row, rest, ?_⟩
  rw [sendResultRows_eq nonempty small fits resumes positive]
  push_cast at head ⊢
  rw [← head]
  split
  case h_1 sent loop => rw [loop]
  case h_2 sent loop =>
    rw [loop]
    split <;> rfl

end

end Execute

/-! ## A sequence of Execute messages -/

/-- All rows that were sent. -/
def sentRows (replies : List (Reply Row)) : List (Int × Row) :=
  replies.flatMap (·.sent)

/-- The rows were sent as the Execute messages have asked for them. -/
structure Resumed (rows : List Row) (replies : List (Reply Row)) : Prop where
  /-- No row is repeated or skipped. -/
  inOrder : sentRows replies <+: numbered 1 rows
  counts : ∀ earlier reply later, replies = earlier ++ reply :: later →
    (reply.sent.length : Int) = min reply.limit ((rows.length : Int) - (sentRows earlier).length)
  suspended : ∀ earlier reply later, replies = earlier ++ reply :: later →
    (reply.status = .portalSuspended ↔ (sentRows (earlier ++ [reply])).length < rows.length)
  succeeds : ∀ reply ∈ replies, reply.status ≠ .failed
  nonnegative : ∀ reply ∈ replies, ∀ remaining, reply.rowsRemaining = some remaining →
    0 ≤ remaining

/-- The first Execute gets all rows, or it is the only one; the formats fit, the columns can be
counted in 16 bits and the rows in 32 bits. -/
def Servable (portal : Portal) (rows : List Row) : List Int → Prop
  | [] => True
  | limit :: rest =>
    rows = [] ∧ portal.columnsFit = true ∨ portal.formatsFit = true ∧ rows.length ≤ int32Max ∧
      if (rows.length : Int) ≤ limit then rows.length < int32Max else rest = []

/-- What it means that there is one reply. -/
theorem resumed_singleton {reply : Reply Row} (inOrder : reply.sent <+: numbered 1 rows)
    (counts : (reply.sent.length : Int) = min reply.limit rows.length)
    (suspended : reply.status = .portalSuspended ↔ reply.sent.length < rows.length)
    (succeeds : reply.status ≠ .failed)
    (nonnegative : ∀ remaining, reply.rowsRemaining = some remaining → 0 ≤ remaining) :
    Resumed rows [reply] := by
  have splits : ∀ earlier other later, [reply] = earlier ++ other :: later →
      earlier = [] ∧ other = reply := by
    intro earlier other later split
    rcases append_eq_singleton_iff.mp split.symm with ⟨rfl, same⟩ | ⟨_, same⟩
    · exact ⟨rfl, (cons.inj same).1⟩
    · cases same
  constructor
  case inOrder => simpa [sentRows] using inOrder
  case counts =>
    intro earlier other later split
    obtain ⟨rfl, rfl⟩ := splits earlier other later split
    simpa [sentRows] using counts
  case suspended =>
    intro earlier other later split
    obtain ⟨rfl, rfl⟩ := splits earlier other later split
    simpa [sentRows] using suspended
  case succeeds => simpa using succeeds
  case nonnegative => simpa using nonnegative

section Serve

variable {portal : Portal} {limit : Int} {rest : List Int}

theorem columnsFit_of_succeeds (succeeds : (sendResultRows portal rows none limit).status ≠
    .failed) :
    portal.columnsFit = true := by
  by_contra unfit
  rw [Bool.not_eq_true] at unfit
  exact succeeds (by rw [sendResultRows, unfit])

/-- The first Execute succeeds only on a portal whose rows can be counted and formatted. -/
theorem formatsFit_of_succeeds (nonempty : rows ≠ []) (positive : 0 < limit)
    (succeeds : (sendResultRows portal rows none limit).status ≠ .failed) :
    portal.formatsFit = true ∧ rows.length ≤ int32Max ∧
      ((rows.length : Int) ≤ limit → rows.length < int32Max) := by
  have small : rows.length ≤ int32Max := by
    by_contra large
    have outOfRange : readInt32 (rows.length : Int) = none := if_neg (by omega)
    exact succeeds (by rw [sendResultRows, columnsFit_of_succeeds succeeds, outOfRange])
  have fits : portal.formatsFit = true := by
    by_contra unfit
    have isSome : (rows.length : Int) ≠ 0 := by simpa using nonempty
    refine succeeds ?_
    rw [sendResultRows, columnsFit_of_succeeds succeeds, readInt32_length small]
    dsimp only
    rw [if_neg isSome, if_neg unfit]
  refine ⟨fits, small, fun all => ?_⟩
  by_contra large
  have exactly : 0 + rows.length = int32Max := by omega
  have overflow := sendRows_overflow rows rows.length 0
    (length_pos_of_ne_nil nonempty) exactly
  have turns : ((rows.length : Int) - 1 + 1).toNat = rows.length := by omega
  simp only [cast_zero, zero_add] at overflow
  refine succeeds ?_
  rw [sendResultRows_eq nonempty small fits rfl positive, lastRow, if_pos all, turns]
  split
  case h_1 => rfl
  case h_2 sent loop =>
    rw [loop] at overflow
    cases overflow

/-- A portal that is resumed repeats a row. -/
theorem not_inOrder_of_resumed {second : Int} (small : rows.length ≤ int32Max)
    (fits : portal.formatsFit = true) (positive : 0 < limit) (less : limit < rows.length)
    (secondPositive : 0 < second) :
    ¬ sentRows (serve portal rows none (limit :: second :: rest)) <+: numbered 1 rows := by
  intro inOrder
  obtain ⟨count, rfl⟩ := Int.eq_ofNat_of_zero_le positive.le
  have first := sendResultRows_some small fits positive less
  obtain ⟨row, more, again⟩ := sendResultRows_resumed small fits secondPositive
    (by exact_mod_cast positive) (by exact_mod_cast less)
  -- Behind the first rows stands the last one of them again.
  have repeated : (sentRows (serve portal rows none ((count : Int) :: second :: rest)))[count]? =
      some ((count : Int), row) := by
    have length : ((numbered 1 rows).take count).length = count := by
      rw [length_take, length_numbered]
      omega
    rw [serve, first]
    rw [if_pos rfl, serve]
    simp only [sentRows, flatMap_cons, again, Int.toNat_natCast]
    rw [getElem?_append_right length.le, length, Nat.sub_self]
    rfl
  obtain ⟨behind, whole⟩ := inOrder
  have inRange := (List.getElem?_eq_some_iff.mp repeated).1
  have found : (numbered 1 rows)[count]? = some ((count : Int), row) := by
    rw [← whole, List.getElem?_append_left inRange, repeated]
  have number := fst_of_numbered found
  omega

/-- An Execute on a portal without rows completes if the columns can be counted. -/
theorem serve_nil_iff (positive : 0 < limit) :
    Resumed ([] : List Row) (serve portal [] none (limit :: rest)) ↔
      Servable portal ([] : List Row) (limit :: rest) := by
  by_cases counted : portal.columnsFit = true
  · refine iff_of_true ?_ (Or.inl ⟨rfl, counted⟩)
    have reply : sendResultRows portal ([] : List Row) none limit =
        ⟨limit, [], .complete, none⟩ := by
      rw [sendResultRows, counted]
      rfl
    rw [serve, reply]
    apply resumed_singleton <;> simp [positive.le]
  · refine iff_of_false (fun resumed => counted ?_) ?_
    · exact columnsFit_of_succeeds (resumed.succeeds _ (mem_cons_self ..))
    · exact not_or.mpr ⟨fun served => counted served.2,
        fun served => counted (columnsFit_of_formatsFit served.1)⟩

/-- The only Execute gets the rows up to its limit and suspends the portal. -/
theorem resumed_of_less (small : rows.length ≤ int32Max) (fits : portal.formatsFit = true)
    (positive : 0 < limit) (less : limit < rows.length) :
    Resumed rows (serve portal rows none [limit]) := by
  rw [serve, sendResultRows_some small fits positive less]
  have length : ((numbered 1 rows).take limit.toNat).length = limit.toNat := by
    rw [length_take, length_numbered]
    omega
  apply resumed_singleton
  case inOrder => exact take_prefix _ _
  case counts =>
    dsimp only
    omega
  case suspended =>
    refine iff_of_true rfl ?_
    dsimp only
    omega
  case succeeds => simp
  case nonnegative =>
    rintro _ ⟨⟩
    omega

end Serve

/-- For all Execute messages with positive limits: the rows are sent as they ask for them if and
only if the portal is not resumed. -/
theorem serve_resumed_iff (portal : Portal) (rows : List Row) (limits : List Int)
    (positive : ∀ limit ∈ limits, 0 < limit) :
    Resumed rows (serve portal rows none limits) ↔ Servable portal rows limits := by
  cases limits with
  | nil =>
    refine iff_of_true ?_ trivial
    constructor <;> simp [serve, sentRows]
  | cons limit rest =>
    have limitPositive := positive limit (mem_cons_self ..)
    by_cases empty : rows = []
    · subst empty
      exact serve_nil_iff limitPositive
    constructor
    · intro resumed
      right
      obtain ⟨fits, small, counted⟩ := formatsFit_of_succeeds empty limitPositive
        (resumed.succeeds _ (mem_cons_self ..))
      refine ⟨fits, small, ?_⟩
      split
      case isTrue all => exact counted all
      case isFalse less =>
        cases rest with
        | nil => rfl
        | cons second rest =>
          have secondPositive := positive second (by simp)
          exact absurd resumed.inOrder (not_inOrder_of_resumed small fits limitPositive
            (not_le.mp less) secondPositive)
    · rintro (⟨isEmpty, -⟩ | ⟨fits, small, served⟩)
      · exact absurd isEmpty empty
      · split at served
        case isTrue all =>
          rw [serve, sendResultRows_all empty served fits limitPositive all]
          apply resumed_singleton <;> simp [all]
        case isFalse less =>
          subst served
          exact resumed_of_less small fits limitPositive (not_le.mp less)

/-- Three rows, such as those of a UNION ALL, which is parsed without a LIMIT. -/
def threeRows : List Nat := [1, 2, 3]

/-- A portal with one column in text format. -/
def textPortal : Portal := ⟨1, 0⟩

theorem serve_resumed_threeRows :
    (∀ limit ∈ [(5 : Int)], 0 < limit) ∧
      Resumed threeRows (serve textPortal threeRows none [5]) := by
  have positive : ∀ limit ∈ [(5 : Int)], 0 < limit := by decide
  refine ⟨positive, (serve_resumed_iff textPortal threeRows [5] positive).mpr (Or.inr ?_)⟩
  decide

/-- Two rows are asked for, and then two more. The second row is sent twice, and `rows_remaining`
becomes negative. -/
theorem not_resumed_threeRows :
    ((serve textPortal threeRows none [2, 2]).map (·.sent),
        (serve textPortal threeRows none [2, 2]).map (·.rowsRemaining)) =
      ([[(1, 1), (2, 2)], [(2, 2), (3, 3)]], [some 1, some (-1)]) ∧
    ¬ Resumed threeRows (serve textPortal threeRows none [2, 2]) := by
  refine ⟨by decide, fun resumed => ?_⟩
  exact absurd resumed.inOrder (by decide)

end Octo.Rocto
