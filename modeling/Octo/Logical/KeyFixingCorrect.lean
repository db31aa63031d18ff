import Octo.Logical.KeyFixing

/-!
# Fixed keys mean the conjuncts they replace

A combination of rows satisfies what is left of a conjunction together with the fixed keys exactly
when it satisfies the conjunction together with the keys that were fixed before. A removed conjunct
lives on as the value of a key, a key is fixed once, and the keys that a cross reference replaces
were not fixed.
-/
namespace Octo.Logical

open Kleene List

variable {Value : Type}

/-! ## Meaning -/

/-- The values that a combination of rows, of the query and of its parent queries, gives to the
columns and to the expressions that are not looked into. -/
structure RowValues (Value : Type) where
  column : Nat → String → Option Value
  tableAsterisk : Nat → Option Value
  expression : Nat → Option Value
  condition : Nat → Truth

/-- The value of an operand, `none` for NULL. -/
def PlanOperand.eval (rows : RowValues Value) : PlanOperand Value → Option Value
  | .value literal _ => literal
  | .columnAlias table column => rows.column table column
  | .tableAsterisk table => rows.tableAsterisk table
  | .derivedColumn address | .expression address _ => rows.expression address

section

variable [LinearOrder Value]

/-- The comparison of two values that are not NULL. -/
def Comparison.holds : Comparison → Value → Value → Bool
  | .equals, left, right => left = right
  | .notEquals, left, right => left ≠ right
  | .lessThan, left, right => left < right
  | .greaterThan, left, right => right < left
  | .lessThanOrEquals, left, right => left ≤ right
  | .greaterThanOrEquals, left, right => right ≤ left

/-- A comparison with NULL is unknown. -/
def Comparison.truth (operator : Comparison) : Option Value → Option Value → Truth
  | some left, some right => if operator.holds left right then .true else .false
  | _, _ => .unknown

/-- `IN` is the disjunction of the equalities. -/
def inTruth (value : Option Value) (list : List (Option Value)) : Truth :=
  list.foldr (fun item rest => (Comparison.truth .equals value item).or rest) .false

/-- `IS` is never unknown. -/
def isTruth (value right : Option Value) : Truth := if value = right then .true else .false

/-- The truth value of a conjunct. -/
def Conjunct.eval (rows : RowValues Value) : Conjunct Value → Truth
  | .comparison operator left right => operator.truth (left.eval rows) (right.eval rows)
  | .inList left list => inTruth (left.eval rows) (list.map (PlanOperand.eval rows))
  | .isValue left right => isTruth (left.eval rows) right
  | .isNotValue left right => (isTruth (left.eval rows) right).not
  | .other address => rows.condition address

/-- The truth value of a conjunction. -/
def Conjunction.eval (rows : RowValues Value) : Conjunction Value → Truth
  | .booleanAnd left right => (left.eval rows).and (right.eval rows)
  | .term conjunct => conjunct.eval rows

/-- The truth value of a clause; a clause that is left empty is true. -/
def clauseEval (rows : RowValues Value) : Option (Conjunction Value) → Truth
  | none => .true
  | some conjunction => conjunction.eval rows

/-- The truth value of a fixed key for the value of its column. -/
def KeyFix.eval (rows : RowValues Value) (value : Option Value) : KeyFix Value → Truth
  | .comparison operator operand => operator.truth value (operand.eval rows)
  | .inList list => inTruth value (list.map (PlanOperand.eval rows))
  | .isNull => isTruth value none
  | .isValue literal => isTruth value (some literal)

/-- The rows of the key's table that the loops visit: a key that is not fixed visits all. -/
def SqlKey.Satisfied (rows : RowValues Value) (key : SqlKey Value) : Prop :=
  ∀ fix, key.fix = some fix → ∃ column, key.column = some column ∧
    fix.eval rows (rows.column key.uniqueId column) = .true

/-- The rows satisfy all keys. -/
def KeysSatisfied (rows : RowValues Value) (keys : List (SqlKey Value)) : Prop :=
  ∀ key ∈ keys, key.Satisfied rows

end

open Comparison Option

open Conjunction

/-! ## Finding the key -/

variable {uniqueId index : Nat} {column : String} {keys : List (SqlKey Value)}
variable {primaryKey : Option Nat} {array : Nat → Nat} {new : List (SqlKey Value)}
  {key : SqlKey Value}

theorem lpGetKeyLoop_spec {found : Nat}
    (result : lpGetKeyLoop uniqueId column keys index primaryKey = some found) :
    primaryKey = some found ∨ ∃ offset key, found = index + offset ∧ keys[offset]? = some key ∧
      key.uniqueId = uniqueId ∧ (key.column = some column ∨ key.fix.isSome = true) := by
  induction keys generalizing index primaryKey with
  | nil => exact .inl result
  | cons key rest ih =>
    have shift : ∀ {offset : Nat}, index + 1 + offset = index + (offset + 1) := by
      intro offset
      omega
    rw [lpGetKeyLoop] at result
    split at result
    case isTrue other =>
      rcases ih result with earlier | ⟨offset, later, rfl, entry, facts⟩
      · exact .inl earlier
      · exact .inr ⟨offset + 1, later, shift, entry, facts⟩
    case isFalse same =>
      have sameTable : key.uniqueId = uniqueId := not_not.mp same
      split at result
      case isTrue matching =>
        exact .inr ⟨0, key, (some.inj result).symm, rfl, sameTable, .inl matching⟩
      case isFalse =>
        rcases ih result with earlier | ⟨offset, later, rfl, entry, facts⟩
        · split at earlier
          case isTrue isFixed =>
            exact .inr ⟨0, key, (some.inj earlier).symm, rfl, sameTable, .inr isFixed⟩
          case isFalse => exact .inl earlier
        · exact .inr ⟨offset + 1, later, shift, entry, facts⟩

/-- The key that is found is of the right table. It is of the column, or already fixed. -/
theorem lpGetKey_eq_some (result : lpGetKey keys uniqueId column = some index) :
    ∃ key, keys[index]? = some key ∧ key.uniqueId = uniqueId ∧
      (key.column = some column ∨ key.fix.isSome = true) := by
  rcases lpGetKeyLoop_spec result with impossible | ⟨offset, key, rfl, entry, facts⟩
  · cases impossible
  · rw [Nat.zero_add]
    exact ⟨key, entry, facts⟩

theorem lpGetKeyLoop_eq_none (result : lpGetKeyLoop uniqueId column keys index primaryKey = none) :
    primaryKey = none ∧ ∀ key ∈ keys, key.uniqueId = uniqueId → key.fix = none := by
  induction keys generalizing index primaryKey with
  | nil => exact ⟨result, fun _ member => nomatch member⟩
  | cons key rest ih =>
    rw [lpGetKeyLoop] at result
    split at result
    case isTrue other =>
      obtain ⟨unset, unfixed⟩ := ih result
      exact ⟨unset, forall_mem_cons.2 ⟨fun same => absurd same other, unfixed⟩⟩
    case isFalse =>
      split at result
      case isTrue => cases result
      case isFalse =>
        obtain ⟨unset, unfixed⟩ := ih result
        split at unset
        case isTrue => cases unset
        case isFalse notFixed =>
          exact ⟨unset, forall_mem_cons.2 ⟨fun _ => by simpa using notFixed, unfixed⟩⟩

/-- No key is found only when no key of the table is fixed. -/
theorem lpGetKey_eq_none (result : lpGetKey keys uniqueId column = none) :
    ∀ key ∈ keys, key.uniqueId = uniqueId → key.fix = none :=
  (lpGetKeyLoop_eq_none result).2

/-! ## Replacing the keys of a table -/

/-- Every table that has a position has a key. -/
def TablesPresent (array : Nat → Nat) (keys : List (SqlKey Value)) : Prop :=
  ∀ uniqueId, array uniqueId ≠ 0 → ∃ key ∈ keys, key.uniqueId = uniqueId

theorem tablesPresent_keyUniqueIdArray (keys : List (SqlKey Value)) :
    TablesPresent (keyUniqueIdArray keys) keys := by
  intro uniqueId
  have loop : ∀ (rest : List (SqlKey Value)) (index start : Nat),
      (rest.zipIdx index).foldl
        (fun found key => if key.1.uniqueId = uniqueId then key.2 else found) start ≠ 0 →
      start ≠ 0 ∨ ∃ key ∈ rest, key.uniqueId = uniqueId := by
    intro rest
    induction rest with
    | nil => exact fun _ _ positive => .inl positive
    | cons key rest ih =>
      intro index start positive
      rw [zipIdx_cons, foldl_cons] at positive
      by_cases same : key.uniqueId = uniqueId
      · exact .inr ⟨key, mem_cons_self, same⟩
      · rw [if_neg same] at positive
        rcases ih _ _ positive with earlier | ⟨later, member, facts⟩
        · exact .inl earlier
        · exact .inr ⟨later, mem_cons_of_mem key member, facts⟩
  intro positive
  rcases loop keys 1 0 positive with impossible | present
  · exact absurd rfl impossible
  · exact present

section

variable (present : ∃ key ∈ keys, key.uniqueId = uniqueId)
include present

/-- The search finds a key of a table that has one. -/
theorem getElem?_firstKeyPosition :
    ∃ key, keys[firstKeyPosition uniqueId keys]? = some key ∧ key.uniqueId = uniqueId := by
  fun_induction firstKeyPosition uniqueId keys with
  | case1 => obtain ⟨key, member, _⟩ := present; cases member
  | case2 only =>
    obtain ⟨key, member, same⟩ := present
    rw [mem_singleton.mp member] at same
    exact ⟨only, rfl, same⟩
  | case3 key next rest same => exact ⟨key, rfl, same⟩
  | case4 key next rest different ih =>
    refine ih ?_
    obtain ⟨found, member, same⟩ := present
    rcases mem_cons.mp member with rfl | inRest
    · exact absurd same different
    · exact ⟨found, inRest, same⟩

/-- The key list around the keys of a table that are replaced. -/
theorem exists_replaceKeys_eq :
    ∃ before replaced after, keys = before ++ replaced ++ after ∧
      (∀ key ∈ replaced, key.uniqueId = uniqueId) ∧
      before.length = firstKeyPosition uniqueId keys ∧
      ∀ new, replaceKeys uniqueId new keys = before ++ new ++ after := by
  obtain ⟨key, entry, same⟩ := getElem?_firstKeyPosition present
  obtain ⟨below, found⟩ := List.getElem?_eq_some_iff.mp entry
  let position := firstKeyPosition uniqueId keys
  let tail := keys.drop (position + 1)
  have dropped : keys.drop position = key :: tail := by
    rw [drop_eq_getElem_cons below, found]
  refine ⟨keys.take position, key :: tail.takeWhile fun other => other.uniqueId == uniqueId,
    tail.dropWhile fun other => other.uniqueId == uniqueId, ?_, ?_, ?_, ?_⟩
  · rw [append_assoc, cons_append, takeWhile_append_dropWhile, ← dropped, take_append_drop]
  · intro other member
    rcases mem_cons.mp member with rfl | inTail
    · exact same
    · simpa using mem_takeWhile_imp inTail
  · rw [length_take]
    omega
  · intro new
    rw [replaceKeys, dropped, tail_cons]

/-- The first of the new keys stands where the first key of the table stood. -/
theorem getElem?_replaceKeys (first : SqlKey Value) (rest : List (SqlKey Value)) :
    (replaceKeys uniqueId (first :: rest) keys)[firstKeyPosition uniqueId keys]? = some first := by
  obtain ⟨before, replaced, after, _, _, position, spliced⟩ := exists_replaceKeys_eq present
  rw [spliced, ← position]
  simp

end

/-- The tables keep their keys when one of them gets new keys. -/
theorem TablesPresent.replaceKeys (tables : TablesPresent array keys)
    (present : ∃ key ∈ keys, key.uniqueId = uniqueId)
    (newKey : ∃ key ∈ new, key.uniqueId = uniqueId) :
    TablesPresent array (replaceKeys uniqueId new keys) := by
  obtain ⟨before, replaced, after, split, same, _, spliced⟩ := exists_replaceKeys_eq present
  intro other positive
  obtain ⟨key, member, rfl⟩ := tables other positive
  rw [spliced]
  rw [split, append_assoc, mem_append, mem_append] at member
  rcases member with inBefore | inReplaced | inAfter
  · exact ⟨key, by simp [inBefore], rfl⟩
  · obtain ⟨first, inNew, sameTable⟩ := newKey
    exact ⟨first, by simp [inNew], sameTable.trans (same key inReplaced).symm⟩
  · exact ⟨key, by simp [inAfter], rfl⟩

theorem TablesPresent.set (tables : TablesPresent array keys)
    {newKey : SqlKey Value} (entry : keys[index]? = some key)
    (sameTable : newKey.uniqueId = key.uniqueId) : TablesPresent array (keys.set index newKey) := by
  obtain ⟨below, found⟩ := List.getElem?_eq_some_iff.mp entry
  intro uniqueId positive
  obtain ⟨other, member, rfl⟩ := tables uniqueId positive
  obtain ⟨position, inList, rfl⟩ := mem_iff_getElem.mp member
  by_cases same : index = position
  · subst same
    exact ⟨newKey, mem_iff_getElem.mpr ⟨index, by simpa using inList, by simp⟩,
      by rw [sameTable, found]⟩
  · exact ⟨keys[position], mem_iff_getElem.mpr
      ⟨position, by simpa using inList, by simp [same]⟩, rfl⟩

section

variable [LinearOrder Value] {rows : RowValues Value}

theorem keysSatisfied_append (rows : RowValues Value) (first second : List (SqlKey Value)) :
    KeysSatisfied rows (first ++ second) ↔
      KeysSatisfied rows first ∧ KeysSatisfied rows second := by
  simp [KeysSatisfied, or_imp, forall_and]

variable {conjunct : Conjunct Value} {state : PlanState Value} {context : FixContext}
  {reference : ColumnReference}

theorem keysSatisfied_of_unfixed (unfixed : ∀ key ∈ keys, key.fix = none) :
    KeysSatisfied rows keys := by
  intro key member fix fixed
  rw [unfixed key member] at fixed
  cases fixed

/-- Keys that are not fixed can be replaced by keys that are not fixed. -/
theorem keysSatisfied_replaceKeys (present : ∃ key ∈ keys, key.uniqueId = uniqueId)
    (unfixed : ∀ key ∈ keys, key.uniqueId = uniqueId → key.fix = none)
    (newUnfixed : ∀ key ∈ new, key.fix = none) :
    KeysSatisfied rows (replaceKeys uniqueId new keys) ↔ KeysSatisfied rows keys := by
  obtain ⟨before, replaced, after, split, same, _, spliced⟩ := exists_replaceKeys_eq present
  have replacedUnfixed : ∀ key ∈ replaced, key.fix = none := by
    intro key member
    exact unfixed key (by rw [split]; simp [member]) (same key member)
  rw [spliced, split]
  simp only [keysSatisfied_append, keysSatisfied_of_unfixed newUnfixed,
    keysSatisfied_of_unfixed replacedUnfixed]

/-- Fixing a key that was not fixed adds its constraint. -/
theorem keysSatisfied_set (entry : keys[index]? = some key)
    (unfixed : key.fix = none) (fix : KeyFix Value) :
    KeysSatisfied rows (keys.set index { key with fix := some fix }) ↔
      (∃ column, key.column = some column ∧
        fix.eval rows (rows.column key.uniqueId column) = .true) ∧ KeysSatisfied rows keys := by
  obtain ⟨below, found⟩ := List.getElem?_eq_some_iff.mp entry
  have split : keys = keys.take index ++ key :: keys.drop (index + 1) := by
    rw [← found, ← drop_eq_getElem_cons below, take_append_drop]
  have alone : KeysSatisfied rows [key] :=
    keysSatisfied_of_unfixed fun other member => by rw [mem_singleton.mp member, unfixed]
  have newKey : KeysSatisfied rows [{ key with fix := some fix }] ↔ ∃ column,
      key.column = some column ∧ fix.eval rows (rows.column key.uniqueId column) = .true := by
    simp [KeysSatisfied, SqlKey.Satisfied]
  have whole : KeysSatisfied rows keys ↔ KeysSatisfied rows (keys.take index) ∧
      KeysSatisfied rows (keys.drop (index + 1)) := by
    have parts := keysSatisfied_append rows (keys.take index ++ [key]) (keys.drop (index + 1))
    rwa [← append_cons, ← split, keysSatisfied_append, and_iff_left alone] at parts
  rw [set_eq_take_append_cons_drop, if_pos below, append_cons, keysSatisfied_append,
    keysSatisfied_append, newKey]
  tauto

/-! ## One conjunct -/

/-- What is left of a conjunct is true; a removed conjunct imposes nothing. -/
def LeftTrue (rows : RowValues Value) (left : Option (Conjunct Value)) : Prop :=
  ∀ conjunct, left = some conjunct → conjunct.eval rows = .true

/-- An optimization step keeps the meaning of a conjunct and the fixed keys together, and leaves
every table a key. -/
structure Keeps (array : Nat → Nat) (rows : RowValues Value) (conjunct : Conjunct Value)
    (state : PlanState Value) (result : Option (Conjunct Value) × PlanState Value) : Prop where
  tables : TablesPresent array result.2.keys
  meaning : (LeftTrue rows result.1 ∧ KeysSatisfied rows result.2.keys) ↔
    (conjunct.eval rows = .true ∧ KeysSatisfied rows state.keys)

theorem leftTrue_some : LeftTrue rows (some conjunct) ↔ conjunct.eval rows = .true := by
  simp [LeftTrue]

theorem leftTrue_none : LeftTrue rows none := fun _ impossible => nomatch impossible

/-- Nothing changes when a conjunct is left as it is. -/
theorem Keeps.unchanged (tables : TablesPresent array state.keys) (conjunct : Conjunct Value) :
    Keeps array rows conjunct state (some conjunct, state) :=
  ⟨tables, by rw [leftTrue_some]⟩

/-- Looking for the key to fix changes no constraint. The key is of the column, or it cannot be
fixed. -/
theorem keyToFix_spec {catalog : Catalog} {found : PlanState Value}
    (tables : TablesPresent array state.keys) (positive : array uniqueId ≠ 0)
    (result : keyToFix catalog uniqueId column state = some (index, found)) :
    TablesPresent array found.keys ∧
      (KeysSatisfied rows found.keys ↔ KeysSatisfied rows state.keys) ∧
      ∃ key, found.keys[index]? = some key ∧ key.uniqueId = uniqueId ∧
        (key.column = some column ∨ key.fix.isSome = true) := by
  rw [keyToFix] at result
  split at result
  case h_1 position looked =>
    obtain ⟨rfl, rfl⟩ := Prod.mk.inj (some.inj result)
    exact ⟨tables, Iff.rfl, lpGetKey_eq_some looked⟩
  case h_2 looked =>
    split at result
    case isTrue => cases result
    case isFalse =>
      obtain ⟨rfl, rfl⟩ := Prod.mk.inj (some.inj result)
      have present := tables uniqueId positive
      refine ⟨tables.replaceKeys present ⟨_, mem_cons_self, rfl⟩,
        keysSatisfied_replaceKeys present (lpGetKey_eq_none looked) ?_,
        _, getElem?_replaceKeys present _ _, rfl, .inl rfl⟩
      intro key member
      rcases mem_cons.mp member with rfl | inRest
      · rfl
      · obtain ⟨keyColumn, _, rfl⟩ := mem_map.mp inRest
        rfl

section

variable {fix : KeyFix Value} (parent : Bool) (tables : TablesPresent context.array state.keys)
  (positive : context.array reference.table ≠ 0)
  (states : conjunct.eval rows = .true ↔
    fix.eval rows (rows.column reference.table reference.column) = .true)
include tables positive states

/-- A key is fixed to what the conjunct states about its column. -/
theorem fixKey_keeps :
    Keeps context.array rows conjunct state (fixKey context reference fix parent conjunct
      state) := by
  rw [fixKey]
  split
  case h_1 => exact Keeps.unchanged tables conjunct
  case h_2 index found looked =>
    obtain ⟨foundTables, sameKeys, key, entry, sameTable, owned⟩ :=
      keyToFix_spec tables positive looked
    rw [entry]
    dsimp only
    split
    case isFalse => exact ⟨foundTables, by rw [leftTrue_some, sameKeys]⟩
    case isTrue fixable =>
      obtain ⟨unfixed, _⟩ := Bool.and_eq_true_iff.mp fixable
      have notFixed : key.fix = none := isNone_iff_eq_none.mp unfixed
      have ownColumn : key.column = some reference.column :=
        owned.resolve_right (by simp [notFixed])
      have constraint : KeysSatisfied rows (found.keys.set index { key with fix := some fix }) ↔
          conjunct.eval rows = .true ∧ KeysSatisfied rows state.keys := by
        rw [keysSatisfied_set entry notFixed, sameKeys, states]
        simp [ownColumn, sameTable]
      have newTables : TablesPresent context.array
          (found.keys.set index { key with fix := some fix }) := foundTables.set entry rfl
      split
      case isTrue =>
        cases parent <;> exact ⟨newTables, by simp [leftTrue_none, constraint]⟩
      case isFalse =>
        refine ⟨newTables, ?_⟩
        rw [leftTrue_some]
        tauto

theorem fixColumn_keeps (isNull isRange : Bool) :
    Keeps context.array rows conjunct state
      (fixColumn context reference fix isNull isRange parent conjunct state) := by
  unfold fixColumn
  dsimp only
  repeat' split
  all_goals first
    | exact Keeps.unchanged tables conjunct
    | exact fixKey_keeps parent tables positive states

end

/-! ## Swapping the operands -/

theorem Comparison.truth_converse (operator : Comparison) (left right : Option Value) :
    operator.converse.truth right left = operator.truth left right := by
  cases left with
  | none => cases right <;> rfl
  | some leftValue =>
    cases right with
    | none => rfl
    | some rightValue =>
      cases operator with
      | equals | notEquals =>
        simp [truth, converse, holds, eq_comm (a := rightValue)]
      | lessThan | greaterThan | lessThanOrEquals | greaterThanOrEquals => rfl

omit [LinearOrder Value] in
/-- A side that is a column comes from an operand that is this column. -/
theorem eq_columnAlias_of_side {operand : PlanOperand Value}
    (isColumn : operand.side = some (.column reference)) :
    operand = .columnAlias reference.table reference.column := by
  cases operand with
  | columnAlias table column =>
    cases isColumn
    rfl
  | _ => cases isColumn

/-- The side that is fixed is a column of a table of the query, and no other table of the query that
stands behind it is compared with it. -/
theorem sideToFix_spec {left right : FixSide} {swapped : Bool}
    (chosen : sideToFix array left right = some (reference, swapped)) :
    array reference.table ≠ 0 ∧ (if swapped then right else left) = .column reference ∧
      ∀ other, (if swapped then left else right) = .column other →
        reference.table ≠ other.table ∧
          (array other.table ≠ 0 → ¬ array reference.table < array other.table) := by
  cases left <;> cases right <;> simp only [sideToFix] at chosen <;> grind

/-- A key column of a table is never NULL. -/
def KeysPresent (catalog : Catalog) (rows : RowValues Value) : Prop :=
  ∀ table column, ((catalog table).column column).isKeyColumn = true →
    rows.column table column ≠ none

/-- Optimizing a conjunct keeps the meaning of the conjunct and the fixed keys together. -/
theorem optimizeConjunct_keeps
    (present : context.numOuterJoins = 0 → KeysPresent context.catalog rows)
    (tables : TablesPresent context.array state.keys) (conjunct : Conjunct Value) :
    Keeps context.array rows conjunct state (optimizeConjunct context conjunct state) := by
  unfold optimizeConjunct
  split
  case h_1 operator left right =>
    split
    case isTrue => exact Keeps.unchanged tables _
    case isFalse =>
      split
      case isTrue => exact Keeps.unchanged tables _
      case isFalse =>
        split
        case h_2 => exact Keeps.unchanged tables _
        case h_1 leftSide rightSide leftIs rightIs =>
          split
          case h_1 => exact Keeps.unchanged tables _
          case h_2 reference swapped chosen =>
            obtain ⟨positive, isColumn, -⟩ := sideToFix_spec chosen
            refine fixColumn_keeps _ tables positive ?_ _ _
            cases swapped with
            | false =>
              obtain rfl : leftSide = .column reference := isColumn
              rw [eq_columnAlias_of_side leftIs]
              rfl
            | true =>
              obtain rfl : rightSide = .column reference := isColumn
              rw [eq_columnAlias_of_side rightIs]
              simp only [if_true, KeyFix.eval, truth_converse, Conjunct.eval, PlanOperand.eval]
  case h_2 table column list =>
    split
    case isTrue => exact Keeps.unchanged tables _
    case isFalse fixable =>
      refine fixColumn_keeps _ tables ?_ Iff.rfl _ _
      intro zero
      simp [zero] at fixable
  case h_3 table column =>
    split
    case isTrue => exact Keeps.unchanged tables _
    case isFalse removable =>
      simp only [Bool.or_eq_true, not_or, bne_iff_ne, not_not, Bool.not_eq_true',
        Bool.not_eq_false] at removable
      refine ⟨tables, ?_⟩
      have notNull := present removable.1.2 table column removable.2
      have holds : (Conjunct.isNotValue (.columnAlias table column) none).eval rows = .true := by
        simp [Conjunct.eval, PlanOperand.eval, isTruth, notNull, Truth.not]
      simp [leftTrue_none, holds]
  case h_4 table column right =>
    split
    case isTrue => exact Keeps.unchanged tables _
    case isFalse fixable =>
      refine fixColumn_keeps _ tables ?_ ?_ _ _
      · intro zero
        simp [zero] at fixable
      · cases right <;> exact Iff.rfl
  all_goals exact Keeps.unchanged tables _

/-! ## The whole conjunction -/

theorem clauseEval_conjoin (left right : Option (Conjunction Value)) :
    clauseEval rows (conjoin left right) = .true ↔
      clauseEval rows left = .true ∧ clauseEval rows right = .true := by
  cases left with
  | none => simp [conjoin, clauseEval]
  | some leftClause =>
    cases right with
    | none => simp [conjoin, clauseEval]
    | some rightClause =>
      simp [conjoin, clauseEval, eval, Truth.and_eq_true_iff]

theorem clauseEval_term (left : Option (Conjunct Value)) :
    clauseEval rows (left.map .term) = .true ↔ LeftTrue rows left := by
  cases left <;> simp [clauseEval, eval, LeftTrue]

/-- Optimizing a conjunction keeps the meaning of the conjunction and the fixed keys together. -/
theorem helper_keeps (present : context.numOuterJoins = 0 → KeysPresent context.catalog rows)
    (conjunction : Conjunction Value) (tables : TablesPresent context.array state.keys) :
    let result := lpOptimizeWhereMultiEqualsAndsHelper context conjunction state
    TablesPresent context.array result.2.keys ∧
      ((clauseEval rows result.1 = .true ∧ KeysSatisfied rows result.2.keys) ↔
        (conjunction.eval rows = .true ∧ KeysSatisfied rows state.keys)) := by
  induction conjunction generalizing state with
  | term conjunct =>
    obtain ⟨newTables, meaning⟩ := optimizeConjunct_keeps present tables conjunct
    exact ⟨newTables, (and_congr_left' (clauseEval_term _)).trans meaning⟩
  | booleanAnd left right leftIh rightIh =>
    obtain ⟨leftTables, leftMeaning⟩ := leftIh tables
    obtain ⟨rightTables, rightMeaning⟩ := rightIh leftTables
    refine ⟨rightTables, ?_⟩
    simp only [lpOptimizeWhereMultiEqualsAndsHelper, clauseEval_conjoin] at *
    rw [eval, Truth.and_eq_true_iff]
    tauto

end

/-- A combination of rows of a query without outer joins, where no key column is NULL. -/
structure InnerRows (Value : Type) (catalog : Catalog) extends RowValues Value where
  present : KeysPresent catalog toRowValues

/-- Without outer joins, a combination of rows satisfies the clause that
`lp_optimize_where_multi_equals_ands` leaves behind together with all keys exactly when it satisfies
the clause under three-valued logic together with the keys that were fixed before. -/
theorem lpOptimizeWhereMultiEqualsAnds_satisfied_iff [LinearOrder Value] (catalog : Catalog)
    (rightTableAlias : Option Nat) (clause : Option (Conjunction Value)) (state : PlanState Value)
    (rows : InnerRows Value catalog) :
    let result := lpOptimizeWhereMultiEqualsAnds catalog rightTableAlias 0 clause state
    (clauseEval rows.toRowValues result.1 = .true ∧
        KeysSatisfied rows.toRowValues result.2.keys) ↔
      (clauseEval rows.toRowValues clause = .true ∧
        KeysSatisfied rows.toRowValues state.keys) := by
  cases clause with
  | none => exact Iff.rfl
  | some conjunction =>
    exact (helper_keeps (fun _ => rows.present) conjunction
      (tablesPresent_keyUniqueIdArray state.keys)).2

/-- `CREATE TABLE names (id INTEGER PRIMARY KEY, firstName VARCHAR)`. -/
def namesCatalog : Catalog := fun _ =>
  ⟨true, true, fun column => ⟨column == "id", false, false, false⟩, ["id"]⟩

/-- The row with the id 1 and no name. -/
def unnamedRow : InnerRows Nat namesCatalog where
  column _ column := if column = "id" then some 1 else none
  tableAsterisk _ := none
  expression _ := none
  condition _ := .unknown
  present table column isKey := by simp [eq_of_beq isKey]

/-- `WHERE id = 1 AND firstName IS NULL`, which fixes the key and adds one for a cross reference. -/
theorem lpOptimizeWhereMultiEqualsAnds_unnamed :
    let clause : Conjunction Nat :=
      .booleanAnd (.term (.comparison .equals (.columnAlias 1 "id") (.value (some 1) false)))
        (.term (.isValue (.columnAlias 1 "firstName") none))
    let result := lpOptimizeWhereMultiEqualsAnds namesCatalog none 0 (some clause)
      ⟨[⟨1, some "id", none, false, false⟩], [1], []⟩
    clauseEval unnamedRow.toRowValues result.1 = .true ∧
      KeysSatisfied unnamedRow.toRowValues result.2.keys := by
  intro clause result
  refine (lpOptimizeWhereMultiEqualsAnds_satisfied_iff namesCatalog none (some clause) _
    unnamedRow).mpr ⟨rfl, ?_⟩
  intro key member fix isFixed
  rw [List.mem_singleton.mp member] at isFixed
  cases isFixed

end Octo.Logical
