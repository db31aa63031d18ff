import Octo.Foundation.Collation
import Octo.Foundation.LocalArray

/-!
# Set operations on result tables

The plan keeps the rows of a query under an output key, `%ydboctocursor(cursorId,"keys",id,"","")`.
Most queries number their rows and store the number of rows above them. A query inside `IN` keeps
its only column in the subscripts, with the number of times it occurred as the value. A set
operation has one helper for each of the two forms. The helper reads the keys of its operands and
writes a key of its own.
-/
namespace Octo.PlanHelpers

/-- `SetOperType`: the kind of a set operation. -/
inductive SetOperation
  | unionAll
  | union
  | intersectAll
  | intersect
  | exceptAll
  | except
deriving DecidableEq, Repr

/-- The output keys of the operands and of the result. The plan gives each query a key of its
own. -/
structure SetKeys where
  inputId1 : Nat
  inputId2 : Nat
  outputId : Nat
  inputs_differ : inputId1 ≠ inputId2
  output_ne_first : outputId ≠ inputId1
  output_ne_second : outputId ≠ inputId2

/-! ## Numbered rows -/

/-- The nodes under an output key with numbered rows: the number of rows, and the rows. -/
structure RowTable where
  count : Option Nat
  rows : LocalArray Nat MValue

/-- What `KILL` leaves of a table. -/
def RowTable.killed : RowTable :=
  ⟨none, .empty⟩

/-- `$GET` of the number of rows. -/
def RowTable.storedCount (table : RowTable) : Nat :=
  table.count.getD 0

/-- The tables of a cursor. -/
abbrev RowCursor := Nat → RowTable

namespace RowCursor

def kill (cursor : RowCursor) (id : Nat) : RowCursor :=
  Function.update cursor id RowTable.killed

def setCount (cursor : RowCursor) (id count : Nat) : RowCursor :=
  Function.update cursor id { cursor id with count := some count }

def setRow (cursor : RowCursor) (id row : Nat) (value : MValue) : RowCursor :=
  Function.update cursor id { cursor id with rows := (cursor id).rows.set row value }

end RowCursor

/-- The local variables of a helper beside the cursor: `index` and `z2`. -/
structure RowState (Index : Type) where
  cursor : RowCursor
  index : LocalArray MValue Index
  z2 : Option Nat

namespace RowState

variable {Index : Type}

/-- The state of a helper that has killed the key of its result. -/
def start (keys : SetKeys) (cursor : RowCursor) : RowState Index :=
  ⟨cursor.kill keys.outputId, .empty, none⟩

/-- `SET %ydboctocursor(cursorId,"keys",outputId,"","",$INCREMENT(z2))=val`. -/
def emit (keys : SetKeys) (val : MValue) (state : RowState Index) : RowState Index :=
  let z2 := state.z2.getD 0 + 1
  { state with cursor := state.cursor.setRow keys.outputId z2 val, z2 := some z2 }

/-- `SET:$DATA(z2) %ydboctocursor(cursorId,"keys",outputId,"","")=z2`. -/
def finish (keys : SetKeys) (state : RowState Index) : RowCursor :=
  match state.z2 with
  | some z2 => state.cursor.setCount keys.outputId z2
  | none => state.cursor

def setIndex (val : MValue) (value : Index) (state : RowState Index) : RowState Index :=
  { state with index := state.index.set val value }

def killIndex (val : MValue) (state : RowState Index) : RowState Index :=
  { state with index := state.index.kill val }

def incrementIndex (val : MValue) (amount : Int) (state : RowState Int) : RowState Int :=
  { state with index := state.index.increment val amount }

end RowState

/-- `FOR z=1:1:zmax` over the rows of a table. A row that is missing is an error in M. -/
def forRows {Index : Type} (id : Nat) (body : MValue → RowState Index → RowState Index)
    (state : RowState Index) : Option (RowState Index) :=
  let zmax := (state.cursor id).storedCount
  (List.range' 1 zmax).foldlM (fun state z => do
    let val ← (state.cursor id).rows.get? z
    some (body val state)) state

/-- `FOR id=inputId1,inputId2`. The body knows whether it has the first key. -/
def forInputs {Index : Type} (keys : SetKeys)
    (body : Bool → MValue → RowState Index → RowState Index) (cursor : RowCursor) :
    Option (RowState Index) := do
  let state ← forRows keys.inputId1 (body (keys.inputId1 = keys.inputId1)) (.start keys cursor)
  forRows keys.inputId2 (body (keys.inputId2 = keys.inputId1)) state

/-- `FOR z=1:1:zmax` of `UNIONALL`, which copies a table behind the rows of the result. -/
def copyRows (id outputId behind zmax : Nat) (cursor : RowCursor) : Option RowCursor :=
  (List.range' 1 zmax).foldlM (fun cursor z => do
    let val ← (cursor id).rows.get? z
    some (cursor.setRow outputId (behind + z) val)) cursor

/-- `UNIONALL`. -/
def unionAll (keys : SetKeys) (cursor : RowCursor) : Option RowCursor := do
  let cursor := cursor.kill keys.outputId
  let zmax1 := (cursor keys.inputId1).storedCount
  let cursor ← copyRows keys.inputId1 keys.outputId 0 zmax1 cursor
  let zmax2 := (cursor keys.inputId2).storedCount
  let cursor ← copyRows keys.inputId2 keys.outputId zmax1 zmax2 cursor
  some (cursor.setCount keys.outputId (zmax1 + zmax2))

/-- The body of the loop of `UNION`. -/
def unionBody (keys : SetKeys) (_ : Bool) (val : MValue) (state : RowState Unit) : RowState Unit :=
  if state.index.data val then state else (state.emit keys val).setIndex val ()

/-- `UNION`. -/
def union (keys : SetKeys) (cursor : RowCursor) : Option RowCursor :=
  (forInputs keys (unionBody keys) cursor).map (·.finish keys)

/-- The body of the loop of `INTERSECTALL`. -/
def intersectAllBody (keys : SetKeys) (isFirst : Bool) (val : MValue) (state : RowState Int) :
    RowState Int :=
  if isFirst then state.incrementIndex val 1
  else if state.index.number val ≠ 0 then (state.incrementIndex val (-1)).emit keys val
  else state

/-- `INTERSECTALL`. -/
def intersectAll (keys : SetKeys) (cursor : RowCursor) : Option RowCursor :=
  (forInputs keys (intersectAllBody keys) cursor).map (·.finish keys)

/-- The body of the loop of `INTERSECT`. -/
def intersectBody (keys : SetKeys) (isFirst : Bool) (val : MValue) (state : RowState Unit) :
    RowState Unit :=
  if isFirst then state.setIndex val ()
  else if state.index.data val then (state.killIndex val).emit keys val
  else state

/-- `INTERSECT`. -/
def intersect (keys : SetKeys) (cursor : RowCursor) : Option RowCursor :=
  (forInputs keys (intersectBody keys) cursor).map (·.finish keys)

/-- The body of the first loop of `EXCEPTALL`. -/
def exceptAllBody (isFirst : Bool) (val : MValue) (state : RowState Int) : RowState Int :=
  if isFirst then state.incrementIndex val 1
  else if state.index.number val ≠ 0 then state.incrementIndex val (-1)
  else state

/-- `FOR z=1:1:times`, which puts a row into the result again and again. -/
def emitTimes {Index : Type} (keys : SetKeys) (times : Int) (val : MValue)
    (state : RowState Index) : RowState Index :=
  (RowState.emit keys val)^[times.toNat] state

/-- `EXCEPTALL`. The second loop walks over the index. -/
def exceptAll (keys : SetKeys) (cursor : RowCursor) : Option RowCursor := do
  let state ← forInputs keys exceptAllBody cursor
  let index := state.index
  some ((index.forWalked (fun subs => emitTimes keys (index.number subs) subs) state).finish keys)

/-- The body of the first loop of `EXCEPT`. -/
def exceptBody (isFirst : Bool) (val : MValue) (state : RowState Unit) : RowState Unit :=
  if isFirst then state.setIndex val () else state.killIndex val

/-- `EXCEPT`. -/
def except (keys : SetKeys) (cursor : RowCursor) : Option RowCursor := do
  let state ← forInputs keys exceptBody cursor
  some ((state.index.forWalked (RowState.emit keys) state).finish keys)

/-- The helper for numbered rows that `get_setoper_mlabref` selects. -/
def SetOperation.rowHelper : SetOperation → SetKeys → RowCursor → Option RowCursor
  | unionAll => PlanHelpers.unionAll
  | union => PlanHelpers.union
  | intersectAll => PlanHelpers.intersectAll
  | intersect => PlanHelpers.intersect
  | exceptAll => PlanHelpers.exceptAll
  | except => PlanHelpers.except

/-! ## Rows in the subscripts -/

/-- The nodes under an output key with the rows in the subscripts: how often each row occurred. -/
abbrev KeyTable := LocalArray MValue Int

/-- The tables of a cursor. -/
abbrev KeyCursor := Nat → KeyTable

namespace KeyCursor

def kill (cursor : KeyCursor) (id : Nat) : KeyCursor :=
  Function.update cursor id .empty

def setNode (cursor : KeyCursor) (id : Nat) (subs : MValue) (val : Int) : KeyCursor :=
  Function.update cursor id ((cursor id).set subs val)

def incrementNode (cursor : KeyCursor) (id : Nat) (subs : MValue) (val : Int) : KeyCursor :=
  Function.update cursor id ((cursor id).increment subs val)

end KeyCursor

/-- The cursor and the local variable `index` of a helper. -/
structure KeyState where
  cursor : KeyCursor
  index : LocalArray MValue Int

namespace KeyState

/-- The state of a helper that has killed the key of its result. -/
def start (keys : SetKeys) (cursor : KeyCursor) : KeyState :=
  ⟨cursor.kill keys.outputId, .empty⟩

def setNode (keys : SetKeys) (subs : MValue) (val : Int) (state : KeyState) : KeyState :=
  { state with cursor := state.cursor.setNode keys.outputId subs val }

def incrementNode (keys : SetKeys) (subs : MValue) (val : Int) (state : KeyState) : KeyState :=
  { state with cursor := state.cursor.incrementNode keys.outputId subs val }

def setIndex (subs : MValue) (val : Int) (state : KeyState) : KeyState :=
  { state with index := state.index.set subs val }

def killIndex (subs : MValue) (state : KeyState) : KeyState :=
  { state with index := state.index.kill subs }

def incrementIndex (subs : MValue) (val : Int) (state : KeyState) : KeyState :=
  { state with index := state.index.increment subs val }

end KeyState

/-- The loop over the subscripts of a table. It writes to another key than the one it walks over, so
that the subscripts and their values stay. -/
def forSubs (id : Nat) (body : MValue → Int → KeyState → KeyState) (state : KeyState) : KeyState :=
  let table := state.cursor id
  table.forTested (fun subs => body subs (table.number subs)) state

/-- `FOR id=inputId1,inputId2`. The body knows whether it has the first key. -/
def forKeyInputs (keys : SetKeys) (body : Bool → MValue → Int → KeyState → KeyState)
    (cursor : KeyCursor) : KeyState :=
  let state := forSubs keys.inputId1 (body (keys.inputId1 = keys.inputId1)) (.start keys cursor)
  forSubs keys.inputId2 (body (keys.inputId2 = keys.inputId1)) state

/-- `columnkeyUNIONALL`. -/
def columnkeyUnionAll (keys : SetKeys) (cursor : KeyCursor) : KeyCursor :=
  (forKeyInputs keys (fun _ subs val => KeyState.incrementNode keys subs val) cursor).cursor

/-- `columnkeyUNION`. -/
def columnkeyUnion (keys : SetKeys) (cursor : KeyCursor) : KeyCursor :=
  (forKeyInputs keys (fun _ subs _ => KeyState.setNode keys subs 1) cursor).cursor

/-- The body of the loop of `columnkeyINTERSECTALL`. -/
def columnkeyIntersectAllBody (keys : SetKeys) (isFirst : Bool) (subs : MValue) (val : Int)
    (state : KeyState) : KeyState :=
  if isFirst then state.incrementIndex subs val
  else if state.index.number subs ≠ 0 then
    let val2 := state.index.number subs
    state.setNode keys subs (if val > val2 then val2 else val)
  else state

/-- `columnkeyINTERSECTALL`. -/
def columnkeyIntersectAll (keys : SetKeys) (cursor : KeyCursor) : KeyCursor :=
  (forKeyInputs keys (columnkeyIntersectAllBody keys) cursor).cursor

/-- The body of the loop of `columnkeyINTERSECT`. -/
def columnkeyIntersectBody (keys : SetKeys) (isFirst : Bool) (subs : MValue) (_ : Int)
    (state : KeyState) : KeyState :=
  if isFirst then state.setIndex subs 1
  else if state.index.number subs ≠ 0 then state.setNode keys subs 1
  else state

/-- `columnkeyINTERSECT`. -/
def columnkeyIntersect (keys : SetKeys) (cursor : KeyCursor) : KeyCursor :=
  (forKeyInputs keys (columnkeyIntersectBody keys) cursor).cursor

/-- The body of the first loop of `columnkeyEXCEPTALL`. -/
def columnkeyExceptAllBody (isFirst : Bool) (subs : MValue) (val : Int) (state : KeyState) :
    KeyState :=
  if isFirst then state.incrementIndex subs val
  else if state.index.number subs ≠ 0 then
    let val2 := state.index.number subs
    state.incrementIndex subs (-(if val > val2 then val2 else val))
  else state

/-- `columnkeyEXCEPTALL`. The second loop leaves out what was subtracted to nothing. -/
def columnkeyExceptAll (keys : SetKeys) (cursor : KeyCursor) : KeyCursor :=
  let state := forKeyInputs keys columnkeyExceptAllBody cursor
  let index := state.index
  (index.forTested (fun subs state =>
    let val := index.number subs
    if val = 0 then state else state.setNode keys subs val) state).cursor

/-- The body of the first loop of `columnkeyEXCEPT`. -/
def columnkeyExceptBody (isFirst : Bool) (subs : MValue) (_ : Int) (state : KeyState) : KeyState :=
  if isFirst then state.setIndex subs 1
  else if state.index.number subs ≠ 0 then state.killIndex subs
  else state

/-- `columnkeyEXCEPT`. -/
def columnkeyExcept (keys : SetKeys) (cursor : KeyCursor) : KeyCursor :=
  let state := forKeyInputs keys columnkeyExceptBody cursor
  (state.index.forTested (fun subs => KeyState.setNode keys subs 1) state).cursor

/-- The helper for rows in the subscripts that `get_setoper_mlabref` selects. -/
def SetOperation.keyHelper : SetOperation → SetKeys → KeyCursor → KeyCursor
  | unionAll => columnkeyUnionAll
  | union => columnkeyUnion
  | intersectAll => columnkeyIntersectAll
  | intersect => columnkeyIntersect
  | exceptAll => columnkeyExceptAll
  | except => columnkeyExcept

/-! ## The multiset a set operation stands for -/

/-- How often a row is in the result if it is `m` and `n` times in the operands. -/
def SetOperation.multiplicity : SetOperation → Nat → Nat → Nat
  | unionAll, m, n => m + n
  | union, m, n => if 0 < m ∨ 0 < n then 1 else 0
  | intersectAll, m, n => min m n
  | intersect, m, n => if 0 < m ∧ 0 < n then 1 else 0
  | exceptAll, m, n => m - n
  | except, m, n => if 0 < m ∧ n = 0 then 1 else 0

/-- A table holds rows under the numbers from 1 on. No number of rows stands for none. -/
structure RowTable.Holds (table : RowTable) (rows : List MValue) : Prop where
  storedCount : table.storedCount = rows.length
  get?_rows : ∀ z, table.rows.get? z = if z = 0 then none else rows[z - 1]?

/-- A table has each row with the number of times it occurs, and no row that does not occur. -/
def KeyTable.Holds (table : KeyTable) (times : MValue → Nat) : Prop :=
  ∀ subs, table.get? subs = if times subs = 0 then none else some (times subs : Int)

end Octo.PlanHelpers
