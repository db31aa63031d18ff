import Mathlib

/-!
# Strings in M code

`m_escape_string2` copies a string into a buffer and doubles every double quote. The buffer is made
larger in the middle of the loop, from the number of the byte that is written next.
-/
namespace Octo.PlanHelpers

open List

/-- A double quote. -/
def doubleQuote : UInt8 :=
  34

/-- The variables of the loop. The bytes of the buffer are those before `b`. -/
structure EscapeState where
  i : Nat
  bufferLen : Nat
  buffer : List UInt8

/-- `EXPAND_BUFFER_IF_NEEDED` for the next index, and the byte that is written at `b` then. Bytes
that have not been written cannot be copied, and a byte behind the buffer cannot be written. -/
def EscapeState.put (state : EscapeState) (c : UInt8) : Option EscapeState :=
  let i := state.i + 1
  if i ≥ state.bufferLen then
    let newSize := if i ≥ state.bufferLen * 2 then i + 1 else state.bufferLen * 2
    if i - 1 ≤ state.buffer.length ∧ i - 1 < newSize then
      some ⟨i, newSize, state.buffer.take (i - 1) ++ [c]⟩
    else none
  else if state.buffer.length < state.bufferLen then
    some ⟨i, state.bufferLen, state.buffer ++ [c]⟩
  else none

/-- The loop over the string. -/
def escapeLoop : EscapeState → List UInt8 → Option EscapeState
  | state, [] => some state
  | state, c :: string =>
    if c = doubleQuote then do
      let state ← state.put doubleQuote
      let state ← state.put doubleQuote
      escapeLoop state string
    else do
      let state ← state.put c
      escapeLoop state string

/-- `m_escape_string2`: the returned length is `i`. -/
def mEscapeString2 (bufferLen : Nat) (string : List UInt8) : Option EscapeState :=
  (escapeLoop ⟨0, bufferLen, []⟩ string).bind fun state => state.put 0

/-- A string with its double quotes doubled. -/
def doubled (string : List UInt8) : List UInt8 :=
  string.flatMap fun c => if c = doubleQuote then [c, c] else [c]

/-- One of two double quotes is left out. -/
def undoubled : List UInt8 → List UInt8
  | first :: second :: rest =>
    if first = doubleQuote ∧ second = doubleQuote then first :: undoubled rest
    else first :: undoubled (second :: rest)
  | rest => rest

/-- The index counts the bytes before `b`, and the buffer is not larger than twice the index unless
it was at first. -/
structure EscapeState.Counted (firstLen : Nat) (state : EscapeState) : Prop where
  index : state.i = state.buffer.length
  bounded : state.bufferLen ≤ max firstLen (2 * state.i)

variable {firstLen : Nat} {state : EscapeState}

/-- A byte is written behind the others, and there is room for one more. -/
theorem EscapeState.Counted.put (counted : state.Counted firstLen) (c : UInt8) :
    ∃ next, state.put c = some next ∧ next.buffer = state.buffer ++ [c] ∧ next.Counted firstLen ∧
      next.i < next.bufferLen := by
  obtain ⟨index, bounded⟩ := counted
  rw [EscapeState.put]
  simp only [index, Nat.add_sub_cancel, take_length] at bounded ⊢
  split
  · rw [if_pos (by split <;> omega)]
    refine ⟨_, rfl, rfl, ⟨by simp, ?_⟩, ?_⟩
    all_goals
      dsimp only
      split <;> omega
  · rw [if_pos (by omega)]
    exact ⟨_, rfl, rfl, ⟨by simp, by dsimp only; omega⟩, by dsimp only; omega⟩

theorem EscapeState.Counted.escapeLoop (counted : state.Counted firstLen) (string : List UInt8) :
    ∃ next, escapeLoop state string = some next ∧ next.Counted firstLen ∧
      next.buffer = state.buffer ++ doubled string := by
  induction string generalizing state with
  | nil => exact ⟨state, rfl, counted, (append_nil _).symm⟩
  | cons c string ih =>
    rw [escapeLoop, doubled, flatMap_cons, ← doubled]
    split
    case isTrue same =>
      obtain ⟨first, put, written, counted, -⟩ := counted.put doubleQuote
      obtain ⟨second, putAgain, writtenAgain, counted, -⟩ := counted.put doubleQuote
      obtain ⟨next, looped, counted, copied⟩ := ih counted
      refine ⟨next, by simp [put, putAgain, looped], counted, ?_⟩
      simp [copied, writtenAgain, written, same]
    case isFalse =>
      obtain ⟨first, put, written, counted, -⟩ := counted.put c
      obtain ⟨next, looped, counted, copied⟩ := ih counted
      exact ⟨next, by simp [put, looped], counted, by simp [copied, written]⟩

theorem undoubled_doubled (string : List UInt8) : undoubled (doubled string) = string := by
  induction string with
  | nil => rfl
  | cons c string ih =>
    rw [doubled, flatMap_cons, ← doubled]
    split
    case isTrue same =>
      rw [cons_append, cons_append, undoubled, if_pos ⟨same, same⟩, nil_append, ih]
    case isFalse other =>
      rw [singleton_append]
      cases rest : doubled string with
      | nil => simp_all [undoubled]
      | cons next behind => rw [undoubled, if_neg fun both => other both.1, ← rest, ih]

/-- The buffer holds the string with doubled quotes and a null byte, whatever its first length is.
No number is larger than the first length and twice the bytes of the buffer, so that none overflows
an `int` for a string of less than 500 megabytes. -/
theorem mEscapeString2_eq (bufferLen : Nat) (string : List UInt8) :
    ∃ state, mEscapeString2 bufferLen string = some state ∧
      state.buffer = doubled string ++ [0] ∧ state.i = state.buffer.length ∧
      state.i ≤ state.bufferLen ∧ state.bufferLen ≤ max bufferLen (2 * state.i) ∧
      undoubled (doubled string) = string := by
  have start : EscapeState.Counted bufferLen ⟨0, bufferLen, []⟩ := ⟨rfl, Nat.le_max_left _ _⟩
  obtain ⟨looped, loop, counted, copied⟩ := start.escapeLoop string
  obtain ⟨state, put, written, counted, room⟩ := counted.put 0
  refine ⟨state, ?_, by rw [written, copied, nil_append], counted.index, Nat.le_of_lt room,
    counted.bounded, undoubled_doubled string⟩
  rw [mEscapeString2, loop]
  exact put

end Octo.PlanHelpers
