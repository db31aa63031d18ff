import Octo.Foundation.Kleene
import Octo.Foundation.Relational

/-!
# The M code of a join

The fragment of M that `tmpl_tablejoin` emits, and its execution. Each table of the FROM list has a
cursor variable that holds the primary key of its current row; the columns of the row are read from
the global through that key, so that a row is represented by its key. `%ydboctoz` holds a match
flag for each table on the right side of a LEFT JOIN and a node for each matched row of a table on
the right side of a RIGHT JOIN. The code that runs for each combination of rows
(`tmpl_tablejoin_body`) is a parameter of the execution.
-/
namespace Octo.Physical

open Kleene Relational

/-- The variables that the join code works on. -/
structure MState (Key Result : Type) where
  /-- The cursor of each table, `none` when it is killed or holds `$ZYSQLNULL`. -/
  keys : Nat → Option Key
  /-- `%ydboctoz(table)` is 1. -/
  flags : Nat → Bool
  /-- The nodes `%ydboctoz(table,key)`. -/
  matched : List (Nat × Key)
  /-- What the body has produced so far. -/
  result : Result

/-- The emitted code. Expressions are emitted under a list of tables whose columns are replaced by
`$ZYSQLNULL`. -/
inductive MCode (Key : Type) where
  | skip
  | seq (first second : MCode Key)
  /-- The FOR loops over the key columns of a table. -/
  | forKeys (table : Nat) (nulls : List Nat) (scan : Tuple Key → List Key) (body : MCode Key)
  /-- The KILL of the cursor after its loop. -/
  | keyFinish (table : Nat)
  /-- `DO:condition` for an ON condition over the tables up to this one. -/
  | doIfOn (table : Nat) (nulls : List Nat) (on : Tuple Key → Truth) (body : MCode Key)
  /-- `SET %ydboctoz(table)=value`. -/
  | setFlag (table : Nat) (value : Bool)
  /-- `DO:0=%ydboctoz(table)`. -/
  | doIfFlagZero (table : Nat) (body : MCode Key)
  /-- `SET %ydboctoz(table,key)=""`. -/
  | setMatched (table : Nat)
  /-- `DO:'$DATA(%ydboctoz(table,key))`. -/
  | doIfNotMatched (table : Nat) (body : MCode Key)
  /-- `SET cursor=$ZYSQLNULL`. -/
  | setKeysNull (table : Nat)
  /-- `DO octoLeftJoinNN`, with the code that is emitted under the label. -/
  | doLabel (table : Nat) (body : MCode Key)
  /-- The code for one combination of rows. -/
  | joinBody (tables : Nat) (nulls : List Nat)

namespace MState

variable {Key Result : Type}

/-- The combination of rows that an expression over the first `count` tables reads. -/
def read (state : MState Key Result) (nulls : List Nat) (count : Nat) : Tuple Key :=
  (List.range count).map fun table => if table ∈ nulls then none else state.keys table

/-- The state with a cursor set. -/
def setKey (state : MState Key Result) (table : Nat) (key : Option Key) : MState Key Result :=
  { state with keys := fun other => if other = table then key else state.keys other }

/-- The state with a match flag set. -/
def putFlag (state : MState Key Result) (table : Nat) (value : Bool) : MState Key Result :=
  { state with flags := fun other => if other = table then value else state.flags other }

/-- The state with the current row of a table recorded as matched. -/
def putMatched (state : MState Key Result) (table : Nat) : MState Key Result :=
  { state with matched := state.matched ++ ((state.keys table).map (table, ·)).toList }

/-- `$DATA` of the match node of the current row of a table. -/
def isMatched [DecidableEq Key] (state : MState Key Result) (table : Nat) : Bool :=
  match state.keys table with
  | none => false
  | some key => decide ((table, key) ∈ state.matched)

end MState

/-- Executes the code; `step` is the effect of the body on a combination of rows. -/
def MCode.exec {Key Result : Type} [DecidableEq Key] (step : Tuple Key → Result → Result) :
    MCode Key → MState Key Result → MState Key Result
  | .skip, state => state
  | .seq first second, state => second.exec step (first.exec step state)
  | .forKeys table nulls scan body, state =>
    (scan (state.read nulls table)).foldl
      (fun current key => body.exec step (current.setKey table (some key))) state
  | .keyFinish table, state => state.setKey table none
  | .doIfOn table nulls on body, state =>
    if on (state.read nulls (table + 1)) = .true then body.exec step state else state
  | .setFlag table value, state => state.putFlag table value
  | .doIfFlagZero table body, state =>
    if state.flags table = false then body.exec step state else state
  | .setMatched table, state => state.putMatched table
  | .doIfNotMatched table body, state =>
    if state.isMatched table = false then body.exec step state else state
  | .setKeysNull table, state => state.setKey table none
  | .doLabel _ body, state => body.exec step state
  | .joinBody tables nulls, state =>
    { state with result := step (state.read nulls tables) state.result }

end Octo.Physical
