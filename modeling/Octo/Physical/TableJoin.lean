import Octo.Physical.JoinCode

/-!
# Emission of the join loops

`tmpl_tablejoin` as a function from the FROM list of a physical plan to join code. The template
calls itself for the tables to the right with the set of tables that are currently treated as NULL
(`treat_key_as_null`), and once more for every RIGHT or FULL JOIN with all tables before it treated
as NULL. A plan that has LEFT JOINs but no RIGHT or FULL JOINs (`key_lvn_can_be_zysqlnull`) instead
emits the body of each LEFT JOIN once under a label and calls it with its cursor set to NULL.
-/
namespace Octo.Physical

open Kleene Relational

/-- The join types of the source. The first table of a FROM list has no join. -/
inductive JoinType where
  | noJoin
  | innerJoin
  | naturalJoin
  | crossJoin
  | leftJoin
  | rightJoin
  | fullJoin
  deriving DecidableEq, Repr

/-- `IS_OUTER_JOIN`. -/
def JoinType.isOuterJoin : JoinType → Bool
  | .leftJoin | .rightJoin | .fullJoin => true
  | _ => false

/-- `IS_CROSS_JOIN_COMPATIBLE`. -/
def JoinType.isCrossJoinCompatible : JoinType → Bool
  | .crossJoin | .naturalJoin => true
  | _ => false

/-- A RIGHT or FULL JOIN, which has a second half. -/
def JoinType.hasSecondHalf : JoinType → Bool
  | .rightJoin | .fullJoin => true
  | _ => false

/-- A LEFT or FULL JOIN, which the template treats as a LEFT JOIN in its first half. -/
def JoinType.isLeftInFirstHalf : JoinType → Bool
  | .leftJoin | .fullJoin => true
  | _ => false

/-- A key that was fixed by the WHERE clause: only rows that it admits are scanned. -/
structure FixedKey (Key : Type) where
  /-- The table whose column the key is fixed to, if it is not fixed to constants. -/
  table : Option Nat
  admits : Tuple Key → Key → Bool
  /-- A key fixed to a NULL finds no row. -/
  admits_null : ∀ reference, table = some reference → ∀ tuple key,
    tuple[reference]? = some none → admits tuple key = false

/-- A table of the FROM list with the join to the tables before it. -/
structure JoinTable (Key : Type) where
  joinType : JoinType
  /-- The primary keys of the rows. -/
  rows : List Key
  /-- The ON condition, over the tables up to and including this one. -/
  on : Option (Tuple Key → Truth)
  fixed : Option (FixedKey Key)

variable {Key : Type}

/-- The rows that the loops of a table visit. Fixed keys do not restrict a second half. -/
def JoinTable.scan (table : JoinTable Key) (secondHalf : Bool) (tuple : Tuple Key) : List Key :=
  match table.fixed with
  | none => table.rows
  | some fixedKey =>
    if secondHalf then table.rows else table.rows.filter fun key => fixedKey.admits tuple key

/-- `tmpl_tablejoin_on_condition`: nothing is emitted without a condition. -/
def tmplTablejoinOnCondition (table : JoinTable Key) (index : Nat) (nulls : List Nat)
    (body : MCode Key) : MCode Key :=
  match table.on with
  | none => body
  | some on => .doIfOn index nulls on body

/-- The loops, conditions and flags that `tmpl_tablejoin` emits for one table around the code for
the tables to its right. -/
def tmplTablejoinLoops (keyLvnCanBeZysqlnull : Bool) (index : Nat) (nulls : List Nat)
    (rightJoinSecondHalf : Bool) (table : JoinTable Key) (inner : MCode Key) : MCode Key :=
  let isLeftJoin := table.joinType == .leftJoin ||
    (table.joinType == .fullJoin && !rightJoinSecondHalf)
  let treatedAsNull := decide (index ∈ nulls)
  let matching :=
    if table.joinType.hasSecondHalf then
      if !rightJoinSecondHalf then
        let recorded :=
          if !isLeftJoin || !treatedAsNull then .seq (.setMatched index) inner else inner
        if !isLeftJoin then tmplTablejoinOnCondition table index nulls recorded else recorded
      else .doIfNotMatched index inner
    else inner
  let flagged :=
    if isLeftJoin && !treatedAsNull then
      tmplTablejoinOnCondition table index nulls
        (.seq (.setFlag index true)
          (if keyLvnCanBeZysqlnull then .doLabel index matching else matching))
    else matching
  let conditioned :=
    if !table.joinType.isOuterJoin then tmplTablejoinOnCondition table index nulls flagged
    else flagged
  if isLeftJoin && treatedAsNull then conditioned
  else
    .seq (.forKeys index nulls (table.scan rightJoinSecondHalf) conditioned)
      -- The caller finishes the keys of a LEFT JOIN after both calls of its label.
      (if keyLvnCanBeZysqlnull && isLeftJoin then .skip else .keyFinish index)

/-- A key fixed to a column of a table that is treated as NULL finds no row, and the loops over its
table are not emitted. -/
def skipRightTablejoin (nulls : List Nat) (table : JoinTable Key) : Bool :=
  match table.fixed with
  | some ⟨some reference, _, _⟩ => decide (reference ∈ nulls)
  | _ => false

/-- The code that runs once the rows of the tables before `index` are chosen: the loops for the
remaining tables, or the body of the join. -/
def tmplTablejoinNested (keyLvnCanBeZysqlnull : Bool) (index : Nat) (nulls : List Nat) :
    List (JoinTable Key) → MCode Key
  | [] => .joinBody index nulls
  | next :: rest =>
    let right (nulls : List Nat) : MCode Key :=
      tmplTablejoinLoops keyLvnCanBeZysqlnull index nulls false next
        (tmplTablejoinNested keyLvnCanBeZysqlnull (index + 1) nulls rest)
    if next.joinType.isLeftInFirstHalf then
      if keyLvnCanBeZysqlnull then
        .seq (.setFlag index false) <| .seq (right nulls) <|
          .seq
            (.doIfFlagZero index <| .seq (.setKeysNull index) <|
              .doLabel index (tmplTablejoinNested keyLvnCanBeZysqlnull (index + 1) nulls rest))
            (.keyFinish index)
      else if skipRightTablejoin nulls next then right (index :: nulls)
      else
        .seq (.setFlag index false) <| .seq (right nulls) <|
          .doIfFlagZero index (right (index :: nulls))
    else right nulls

/-- The loop that marks the next `numTables` tables as NULL, starting at `curKey`. -/
def nullifyKeys (nulls : List Nat) (curKey : Nat) : Nat → List Nat × Nat
  | 0 => (nulls, curKey)
  | numTables + 1 => nullifyKeys (curKey :: nulls) (curKey + 1) numTables

/-- The second halves that the outermost call emits, with the tables nullified so far, the first
table that is not nullified and the number of tables passed since. -/
def tmplTablejoinSecondHalves (keyLvnCanBeZysqlnull : Bool) (nulls : List Nat)
    (curKey numTables : Nat) : List (JoinTable Key) → MCode Key
  | [] => .skip
  | table :: rest =>
    if table.joinType.hasSecondHalf then
      let (nulls, curKey) := nullifyKeys nulls curKey numTables
      .seq
        (tmplTablejoinLoops keyLvnCanBeZysqlnull curKey nulls true table
          (tmplTablejoinNested keyLvnCanBeZysqlnull (curKey + 1) nulls rest))
        (tmplTablejoinSecondHalves keyLvnCanBeZysqlnull nulls curKey 1 rest)
    else tmplTablejoinSecondHalves keyLvnCanBeZysqlnull nulls curKey (numTables + 1) rest

/-- `key_lvn_can_be_zysqlnull`: there are LEFT JOINs but no RIGHT or FULL JOINs. -/
def keyLvnCanBeZysqlnull (tables : List (JoinTable Key)) : Bool :=
  tables.any (fun table => table.joinType == .leftJoin) &&
    !tables.any (fun table => table.joinType.hasSecondHalf)

/-- The outermost call of `tmpl_tablejoin`. -/
def tmplTablejoin : List (JoinTable Key) → MCode Key
  | [] => .skip
  | first :: rest =>
    let canBeNull := keyLvnCanBeZysqlnull (first :: rest)
    .seq
      (tmplTablejoinLoops canBeNull 0 [] false first (tmplTablejoinNested canBeNull 1 [] rest))
      (tmplTablejoinSecondHalves canBeNull [] 0 0 (first :: rest))

end Octo.Physical
