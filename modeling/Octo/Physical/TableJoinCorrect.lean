import Octo.Physical.TableJoinRun

/-!
# The join loops compute the SQL join

The combinations that the emitted code gives to its body, compared with the left-associative join
of the tables. A fixed key acts like a stronger ON condition; without fixed keys the code computes
the SQL join: the match flags and match nodes of the code decide exactly which rows an outer join
extends by NULLs.
-/
namespace Octo.Physical

open Kleene Relational Multiset JoinTable

variable {Key : Type} (tables : List (JoinTable Key))

/-- The kind of join that a join type stands for. -/
def JoinType.kind : JoinType → JoinKind
  | .noJoin | .innerJoin | .naturalJoin | .crossJoin => .inner
  | .leftJoin => .left
  | .rightJoin => .right
  | .fullJoin => .full

/-- A table of the FROM list as the right side of a join. -/
def JoinTable.operand (table : JoinTable Key) : Operand Key :=
  ⟨table.joinType.kind, table.rows, table.passes⟩

/-- The SQL meaning of a FROM list: the first table joined to the one empty combination, and every
further table to the result so far. -/
def sqlJoin (tables : List (JoinTable Key)) : Multiset (Tuple Key) :=
  joinChain 0 {[]} (tables.map JoinTable.operand)

/-- A row is found by the loops of its table and satisfies the ON condition. -/
def JoinTable.accepts (table : JoinTable Key) (tuple : Tuple Key) (key : Key) : Bool :=
  (match table.fixed with
    | none => true
    | some fixedKey => fixedKey.admits tuple key) && table.passes tuple key

/-- A table with its fixed key counted as a part of the ON condition. -/
def JoinTable.scanned (table : JoinTable Key) : Operand Key :=
  ⟨table.joinType.kind, table.rows, table.accepts⟩

/-- The join of the tables under their ON conditions and fixed keys. -/
def scannedJoin (tables : List (JoinTable Key)) : Multiset (Tuple Key) :=
  joinChain 0 {[]} (tables.map JoinTable.scanned)

@[simp] theorem keepsLeft_scanned (table : JoinTable Key) :
    table.scanned.kind.keepsLeft = table.joinType.isLeftInFirstHalf := by
  unfold scanned
  cases table.joinType <;> rfl

@[simp] theorem keepsRight_scanned (table : JoinTable Key) :
    table.scanned.kind.keepsRight = table.joinType.hasSecondHalf := by
  unfold scanned
  cases table.joinType <;> rfl

theorem matchedKeys_eq_filter (table : JoinTable Key) (tuple : Tuple Key) :
    table.matchedKeys tuple = table.rows.filter (table.accepts tuple) := by
  unfold matchedKeys scan accepts
  cases table.fixed with
  | none => simp
  | some fixedKey => simp [Bool.and_comm]

/-- What the first half of a join makes of one combination. -/
def JoinTable.extendTuples (table : JoinTable Key) (tuple : Tuple Key) : List (Tuple Key) :=
  if table.joinType.isLeftInFirstHalf && (table.matchedKeys tuple).isEmpty then [tuple ++ [none]]
  else (table.matchedKeys tuple).map fun key => tuple ++ [some key]

theorem growTuples_cons (table : JoinTable Key) (rest : List (JoinTable Key)) (tuple : Tuple Key) :
    growTuples tuple (table :: rest) =
      (table.extendTuples tuple).flatMap fun longer => growTuples longer rest := by
  rw [growTuples, extendTuples]
  split
  · simp
  · rw [List.flatMap_map]

/-- The first half of a join extends a combination as the join does. -/
theorem coe_extendTuples (table : JoinTable Key) (tuple : Tuple Key) :
    (table.extendTuples tuple : Multiset (Tuple Key)) = table.scanned.extend tuple := by
  have found := matchedKeys_eq_filter table tuple
  have lonely : (table.joinType.isLeftInFirstHalf && (table.matchedKeys tuple).isEmpty) = true ↔
      table.scanned.kind.keepsLeft = true ∧
        ∀ key ∈ table.scanned.rows, table.scanned.on tuple key = false := by
    rw [keepsLeft_scanned, found]
    simp [scanned]
  have matched : (((table.matchedKeys tuple).map fun key => tuple ++ [some key] :
      List (Tuple Key)) : Multiset (Tuple Key)) = table.scanned.matched tuple := by
    rw [found]
    change _ = ((table.rows : Multiset Key).filter fun key => table.accepts tuple key = true).map
      fun key => tuple ++ [some key]
    simp
  rw [extendTuples, Operand.extend]
  by_cases alone : (table.joinType.isLeftInFirstHalf &&
      (table.matchedKeys tuple).isEmpty) = true
  · rw [if_pos alone, if_pos (lonely.mp alone)]
    rfl
  · rw [if_neg alone, if_neg (fun holds => alone (lonely.mpr holds)), matched]

/-! ## First halves -/

/-- The growth of the code is the left growth of the joins. -/
theorem coe_growTuples (tuple : Tuple Key) :
    (growTuples tuple tables : Multiset (Tuple Key)) =
      grow tuple (tables.map scanned) := by
  induction tables generalizing tuple with
  | nil => rfl
  | cons table rest ih =>
    rw [growTuples_cons, ← coe_bind, coe_extendTuples, List.map_cons, grow]
    simp only [ih]

variable {table : JoinTable Key} {index : Nat} {tuples : Multiset (Tuple Key)}
    {matched : List (Nat × Key)} {tables : List (JoinTable Key)}

variable {tuple : Tuple Key} {key : Key} {rest : List (JoinTable Key)}

/-- The rows of a table that the code records: those that it finds for the combination. -/
theorem mem_growMatches_here_iff (hasSecondHalf : table.joinType.hasSecondHalf = true)
    (rest : List (JoinTable Key)) :
    (index, key) ∈ growMatches index tuple (table :: rest) ↔
      key ∈ table.rows ∧ table.accepts tuple key = true := by
  have notLater : ∀ longer, (index, key) ∉ growMatches (index + 1) longer rest :=
    fun _ member => Nat.not_succ_le_self index (le_of_mem_growMatches member)
  rw [growMatches]
  split
  case isTrue lonely =>
    have empty := List.isEmpty_iff.mp (Bool.and_eq_true_iff.mp lonely).2
    rw [matchedKeys_eq_filter, List.filter_eq_nil_iff] at empty
    exact ⟨fun member => absurd member (notLater _),
      fun isRow => absurd isRow.2 (empty key isRow.1)⟩
  case isFalse =>
    simp [matchedKeys_eq_filter, notLater]

/-- The rows of the later tables that the code records are those recorded for an extension. -/
theorem mem_growMatches_later_iff (table : JoinTable Key) (rest : List (JoinTable Key))
    {other : Nat} (later : index < other) :
    (other, key) ∈ growMatches index tuple (table :: rest) ↔
      ∃ longer ∈ table.extendTuples tuple, (other, key) ∈ growMatches (index + 1) longer rest := by
  have notHere : ∀ chosen : Key,
      (other, key) ∉ if table.joinType.hasSecondHalf then [(index, chosen)] else [] := by
    intro chosen member
    split at member
    · cases List.mem_singleton.mp member
      exact Nat.lt_irrefl _ later
    · cases member
  rw [growMatches, extendTuples]
  split
  · simp
  · simp [notHere]

/-! ## Second halves -/

/-- The recorded rows are those that were matched by the combinations joined so far. -/
def RecordsMatches (index : Nat) (tuples : Multiset (Tuple Key)) (tables : List (JoinTable Key))
    (matched : List (Nat × Key)) : Prop :=
  ∀ other ≥ index, ∀ key, (other, key) ∈ matched ↔
    ∃ tuple ∈ tuples, (other, key) ∈ growMatches index tuple tables

/-- The second half of a join finds the rows that no combination on its left matches. -/
theorem coe_unmatchedKeys [DecidableEq Key] (hasSecondHalf : table.joinType.hasSecondHalf = true)
    (records : RecordsMatches index tuples (table :: rest) matched) :
    ((table.rows.filter fun key => decide ((index, key) ∉ matched) : List Key) : Multiset Key) =
      table.scanned.unmatched tuples := by
  rw [← filter_coe]
  refine filter_congr fun key inRows => ?_
  rw [records index (Nat.le_refl index) key]
  simp only [mem_growMatches_here_iff hasSecondHalf]
  constructor
  · intro unmatched tuple member
    exact Bool.eq_false_iff.mpr fun accepted => unmatched ⟨tuple, member, inRows, accepted⟩
  · rintro unmatched ⟨tuple, member, _, accepted⟩
    exact Bool.eq_false_iff.mp (unmatched tuple member) accepted

/-- After the second half of a join, the recorded rows are those matched by its result. -/
theorem RecordsMatches.join [DecidableEq Key]
    (records : RecordsMatches index tuples (table :: rest) matched) :
    RecordsMatches (index + 1) (table.scanned.join index tuples) rest
      (if table.joinType.hasSecondHalf then
        matched ++ (table.rows.filter fun key => decide ((index, key) ∉ matched)).flatMap fun key =>
          growMatches (index + 1) (Operand.rightOnly index key) rest
      else matched) := by
  intro other later key
  have recorded : (other, key) ∈ matched ↔
      ∃ longer ∈ tuples.bind table.scanned.extend,
        (other, key) ∈ growMatches (index + 1) longer rest := by
    rw [records other (Nat.le_of_succ_le later) key]
    simp only [mem_growMatches_later_iff table rest later, mem_bind, ← coe_extendTuples]
    constructor
    · rintro ⟨tuple, member, longer, extended, found⟩
      exact ⟨longer, ⟨tuple, member, extended⟩, found⟩
    · rintro ⟨longer, ⟨tuple, member, extended⟩, found⟩
      exact ⟨tuple, member, longer, extended, found⟩
  rw [Operand.join, keepsRight_scanned]
  cases hasSecondHalf : table.joinType.hasSecondHalf with
  | false => simpa using recorded
  | true =>
    simp only [if_true, List.mem_append, recorded, List.mem_flatMap, mem_add,
      mem_map, ← coe_unmatchedKeys hasSecondHalf records]
    constructor
    · rintro (⟨longer, member, found⟩ | ⟨row, member, found⟩)
      · exact ⟨longer, .inl member, found⟩
      · exact ⟨_, .inr ⟨row, member, rfl⟩, found⟩
    · rintro ⟨longer, member | ⟨row, member, rfl⟩, found⟩
      · exact .inl ⟨longer, member, found⟩
      · exact .inr ⟨row, member, found⟩

/-- The second halves add what grows from the unmatched right rows. -/
theorem coe_secondHalfTuples [DecidableEq Key]
    (records : RecordsMatches index tuples tables matched) :
    (secondHalfTuples index matched tables : Multiset (Tuple Key)) =
      rightStarts index tuples (tables.map scanned) := by
  induction tables generalizing index tuples matched with
  | nil => rfl
  | cons table rest ih =>
    have next := ih records.join
    rw [secondHalfTuples_cons, List.map_cons, rightStarts, keepsRight_scanned]
    cases hasSecondHalf : table.joinType.hasSecondHalf with
    | false => simpa [hasSecondHalf] using next
    | true =>
      simp only [hasSecondHalf, if_true] at next ⊢
      rw [← next, ← coe_unmatchedKeys hasSecondHalf records, ← coe_add, ← coe_bind]
      simp only [coe_growTuples]

/-- The emitted code gives to its body the join of the tables under their ON conditions and fixed
keys. -/
theorem coe_joinTuples [DecidableEq Key] :
    (joinTuples tables : Multiset (Tuple Key)) = scannedJoin tables := by
  have records : RecordsMatches 0 {[]} tables (growMatches 0 [] tables) := by
    intro other _ key
    simp
  rw [scannedJoin, joinChain_eq_grow_add_rightStarts, joinTuples, ← coe_add,
    coe_growTuples, coe_secondHalfTuples records, singleton_bind]

/-- None of the tables has a fixed key. -/
def Unfixed (tables : List (JoinTable Key)) : Prop := ∀ table ∈ tables, table.fixed = none

theorem map_scanned_of_unfixed (unfixed : Unfixed tables) :
    tables.map scanned = tables.map operand := by
  refine List.map_congr_left fun table member => ?_
  have accepted : table.accepts = table.passes := by
    funext tuple key
    simp [accepts, unfixed table member]
  rw [scanned, operand, accepted]

/-- Without fixed keys the join is the SQL join. -/
theorem scannedJoin_of_unfixed (unfixed : Unfixed tables) :
    scannedJoin tables = sqlJoin tables := by
  rw [scannedJoin, sqlJoin, map_scanned_of_unfixed unfixed]

/-- The body of a plan without a WHERE clause: the combination is added to the output. -/
def outputTuple (tuple : Tuple Key) (output : List (Tuple Key)) : List (Tuple Key) :=
  output ++ [tuple]

theorem foldl_outputTuple (tuples output : List (Tuple Key)) :
    tuples.foldl (fun result tuple => outputTuple tuple result) output = output ++ tuples := by
  induction tuples generalizing output with
  | nil => simp
  | cons tuple rest ih => rw [List.foldl_cons, ih, outputTuple, List.append_assoc]; rfl

/-- For every FROM list without fixed keys and every mix of joins, the emitted loops output exactly
the multiset of the left-associative SQL join of the tables. -/
theorem tmplTablejoin_outputs_sqlJoin [DecidableEq Key] (first : JoinTable Key)
    (rest : List (JoinTable Key)) (starts : first.joinType = .noJoin)
    (unfixed : Unfixed (first :: rest)) :
    (((tmplTablejoin (first :: rest)).exec outputTuple (MState.initial [])).result :
        Multiset (Tuple Key)) = sqlJoin (first :: rest) := by
  rw [result_tmplTablejoin outputTuple rest starts, foldl_outputTuple, List.nil_append,
    coe_joinTuples, scannedJoin_of_unfixed unfixed]

/-- Tables `t1` with rows 1 and 2 and `t2` with rows 2 and 3, for
`t1 FULL JOIN t2 ON t1.id = t2.id`. -/
def fullJoinTables : List (JoinTable Nat) :=
  [⟨.noJoin, [1, 2], none, none⟩, ⟨.fullJoin, [2, 3], some fun tuple =>
      match tuple with
      | [some left, some right] => if left = right then .true else .false
      | _ => .unknown, none⟩]

theorem tmplTablejoin_outputs_fullJoin :
    ((tmplTablejoin fullJoinTables).exec outputTuple (MState.initial [])).result =
        [[some 1, none], [some 2, some 2], [none, some 3]] ∧
      (((tmplTablejoin fullJoinTables).exec outputTuple (MState.initial [])).result :
        Multiset (Tuple Nat)) = sqlJoin fullJoinTables :=
  ⟨by decide, tmplTablejoin_outputs_sqlJoin _ _ rfl (by simp [Unfixed])⟩

end Octo.Physical
