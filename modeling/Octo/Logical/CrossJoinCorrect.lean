import Octo.Logical.CrossJoin

/-!
# What the reordering of cross joins keeps

In a list of CROSS and NATURAL JOINs the first table and the tables of the CROSS JOINs are permuted
among the first places, and the NATURAL JOINs follow in their order. An ON condition that was moved
to the first table stays at the first place, also when another table is put there: then it refers to
a table that comes after it. A list with another join is left as it was only if no CROSS JOIN had
been moved before that join was found.
-/
namespace Octo.Logical

open Octo.Foundation Function TableJoin
open Octo.Physical
open List hiding swapAt

variable {Value : Type}
variable {sorted : List Nat}

/-! ## The CROSS JOINs in front -/

/-- The nodes before the first join that is neither a CROSS nor a NATURAL JOIN. -/
def compatiblePrefix (nodes : List TableJoin) : List TableJoin :=
  nodes.takeWhile TableJoin.isCompatible

/-- The CROSS JOINs of a list, and then its other nodes. -/
def crossesFirst (nodes : List TableJoin) : List TableJoin :=
  nodes.filter isCross ++ nodes.filter fun node => !node.isCross

theorem moveCrossJoins_eq (front middle rest : List TableJoin) :
    moveCrossJoins front middle rest =
      if rest.all isCompatible then
        .ok (front ++ rest.filter isCross,
          middle ++ rest.filter fun node => !node.isCross)
      else
        .error (front ++ (compatiblePrefix rest).filter isCross ++
          (middle ++ (compatiblePrefix rest).filter fun node => !node.isCross) ++
            rest.dropWhile isCompatible) := by
  induction rest generalizing front middle with
  | nil => simp [moveCrossJoins]
  | cons next rest ih =>
    by_cases compatible : next.isCompatible = true
    · by_cases cross : next.isCross = true <;>
        simp [moveCrossJoins, compatiblePrefix, compatible, cross, ih]
    · simp [moveCrossJoins, compatiblePrefix, compatible]

/-- Both loops together sort the joins before the first one that is neither a CROSS nor a NATURAL
JOIN. -/
theorem leadingCrossJoins_bind (front rest : List TableJoin) :
    leadingCrossJoins front rest >>= moveBehindLeading =
      if rest.all isCompatible then
        .ok (front ++ rest.filter isCross, rest.filter fun node => !node.isCross)
      else
        .error (front ++ crossesFirst (compatiblePrefix rest) ++
          rest.dropWhile isCompatible) := by
  induction rest generalizing front with
  | nil => simp [leadingCrossJoins, bind, Except.bind, moveBehindLeading]
  | cons next rest ih =>
    by_cases compatible : next.isCompatible = true
    · by_cases cross : next.isCross = true
      · rw [leadingCrossJoins]
        simp [ih, compatiblePrefix, crossesFirst, compatible, cross]
      · rw [leadingCrossJoins]
        simp [cross, bind, Except.bind, moveBehindLeading, moveCrossJoins_eq, compatiblePrefix,
          crossesFirst, compatible]
    · simp [leadingCrossJoins, compatiblePrefix, crossesFirst, compatible, bind, Except.bind]

variable {first node : TableJoin} {id : Nat} {list : JoinList} {rest : List TableJoin}

theorem gatherCrossJoins_compatible (compatible : ∀ node ∈ rest, node.isCompatible = true) :
    gatherCrossJoins first rest =
      .ok (first :: rest.filter isCross, rest.filter fun node => !node.isCross) := by
  have all : rest.all isCompatible = true := all_eq_true.mpr compatible
  rw [gatherCrossJoins, leadingCrossJoins_bind, if_pos all, singleton_append]

theorem gatherCrossJoins_incompatible (incompatible : ∃ node ∈ rest, node.isCompatible = false) :
    gatherCrossJoins first rest =
      .error (first :: crossesFirst (compatiblePrefix rest) ++
        rest.dropWhile isCompatible) := by
  have notAll : ¬rest.all isCompatible = true := by
    obtain ⟨node, member, other⟩ := incompatible
    intro all
    rw [all_eq_true.mp all node member] at other
    cases other
  rw [gatherCrossJoins, leadingCrossJoins_bind, if_neg notAll, singleton_append]

/-! ## Lists with another join -/

/-- The CROSS JOINs stand in front of the NATURAL JOINs. -/
def CrossesLead (nodes : List TableJoin) : Prop :=
  nodes.Pairwise fun before behind => behind.isCross = true → before.isCross = true

instance (nodes : List TableJoin) : Decidable (CrossesLead nodes) :=
  inferInstanceAs (Decidable (List.Pairwise _ _))

variable (nodes : List TableJoin)

theorem crossesFirst_eq_iff :
    crossesFirst nodes = nodes ↔ CrossesLead nodes := by
  induction nodes with
  | nil => exact iff_of_true rfl .nil
  | cons node nodes ih =>
    rw [CrossesLead, pairwise_cons, ← CrossesLead, ← ih]
    by_cases cross : node.isCross = true
    · simp [crossesFirst, cross]
    · have others : (∀ behind ∈ nodes, behind.isCross = true → node.isCross = true) ↔
          nodes.filter isCross = [] := by
        rw [filter_eq_nil_iff]
        exact forall₂_congr fun behind _ => imp_iff_not cross
      rw [others]
      constructor
      · intro same
        simp only [crossesFirst, filter_cons, cross] at same
        cases moved : nodes.filter isCross with
        | nil =>
          rw [moved] at same
          refine ⟨rfl, ?_⟩
          rw [crossesFirst, moved]
          exact (cons.inj same).2
        | cons front others =>
          rw [moved] at same
          have isCross := (mem_filter.mp (moved ▸ mem_cons_self)).2
          rw [(cons.inj same).1] at isCross
          exact absurd isCross cross
      · rintro ⟨none, same⟩
        rw [crossesFirst, none, nil_append] at same
        rw [crossesFirst, filter_cons_of_neg cross, none, nil_append,
          filter_cons_of_pos (by simp [cross]), same]

/-- A list with an INNER or OUTER JOIN is left as it was exactly when no CROSS JOIN before the first
such join stands behind a NATURAL JOIN. -/
theorem lpOptimizeCrossJoin_unchanged_iff (catalog : Catalog) (list : JoinList)
    (clause : Option (Conjunction Value))
    (incompatible : ∃ node ∈ list.rest, node.isCompatible = false) :
    lpOptimizeCrossJoin catalog list clause = some (list.nodes, clause) ↔
      CrossesLead (compatiblePrefix list.rest) := by
  have whole : list.nodes = list.first ::
      compatiblePrefix list.rest ++ list.rest.dropWhile isCompatible := by
    rw [compatiblePrefix, cons_append, takeWhile_append_dropWhile, JoinList.nodes]
  rw [lpOptimizeCrossJoin, gatherCrossJoins_incompatible incompatible, whole, ← crossesFirst_eq_iff]
  simp

/-- `t1 CROSS JOIN t2 NATURAL JOIN t3 INNER JOIN t4`. -/
def crossNaturalInner : JoinList where
  first := ⟨.noJoin, none, 1⟩
  rest := [⟨.crossJoin, none, 2⟩, ⟨.naturalJoin, some ⟨0, [1, 3]⟩, 3⟩,
    ⟨.innerJoin, some ⟨1, [1, 4]⟩, 4⟩]
  maxUniqueId := 5
  first_noJoin := rfl
  distinct := by decide
  known := by decide
  cross_on := by decide
  on_before := by decide

/-- A catalog of tables without keys. -/
def plainCatalog : Catalog := fun _ => ⟨true, true, fun _ => ⟨false, false, false, false⟩, []⟩

theorem lpOptimizeCrossJoin_crossNaturalInner :
    lpOptimizeCrossJoin plainCatalog crossNaturalInner (none : Option (Conjunction Nat)) =
      some (crossNaturalInner.nodes, none) :=
  (lpOptimizeCrossJoin_unchanged_iff plainCatalog crossNaturalInner none
    ⟨⟨.innerJoin, some ⟨1, [1, 4]⟩, 4⟩, by decide, rfl⟩).mpr (by decide)

/-- `t1 NATURAL JOIN t2 CROSS JOIN t3 INNER JOIN t4`. -/
def naturalCrossInner : JoinList where
  first := ⟨.noJoin, none, 1⟩
  rest := [⟨.naturalJoin, some ⟨0, [1, 2]⟩, 2⟩, ⟨.crossJoin, none, 3⟩,
    ⟨.innerJoin, some ⟨1, [1, 4]⟩, 4⟩]
  maxUniqueId := 5
  first_noJoin := rfl
  distinct := by decide
  known := by decide
  cross_on := by decide
  on_before := by decide

/-- `t3` has been moved in front of `t2` when the INNER JOIN is found. -/
theorem naturalCrossInner_changed :
    (lpOptimizeCrossJoin plainCatalog naturalCrossInner (none : Option (Conjunction Nat))).map
        (fun result => result.1.map table) = some [1, 3, 2, 4] ∧
      naturalCrossInner.nodes.map table = [1, 2, 3, 4] :=
  ⟨rfl, rfl⟩

/-! ## The WHERE clause -/

/-- The terms of a conjunction. -/
def Conjunction.conjuncts : Conjunction Value → List (Conjunct Value)
  | .booleanAnd left right => left.conjuncts ++ right.conjuncts
  | .term conjunct => [conjunct]

/-- The terms of a WHERE clause. -/
def whereConjuncts (clause : Option (Conjunction Value)) : List (Conjunct Value) :=
  (clause.map Conjunction.conjuncts).getD []

/-- A term compares the two ids. -/
def Conjunct.Compares (catalog : Catalog) (conjunct : Conjunct Value) (first second : Nat) : Prop :=
  conjunct.equalsIds catalog = some (first, second) ∨
    conjunct.equalsIds catalog = some (second, first)

variable (catalog : Catalog) (clause : Conjunction Value)

/-- Filling in the array keeps the clause. -/
theorem fillEquals_clause (equals : EqualsIds) :
    (fillEquals catalog clause equals).1 = some clause := by
  induction clause generalizing equals with
  | booleanAnd left right leftIh rightIh =>
    rw [fillEquals]
    simp only [leftIh, rightIh, conjoin]
  | term conjunct =>
    rw [fillEquals]
    split <;> rfl

theorem fillEquals_iff (equals : EqualsIds) (first second : Nat) :
    (fillEquals catalog clause equals).2 first second = true ↔
      (∃ conjunct ∈ clause.conjuncts, conjunct.Compares catalog first second) ∨
        equals first second = true := by
  induction clause generalizing equals with
  | booleanAnd left right leftIh rightIh =>
    rw [fillEquals]
    simp only [rightIh, leftIh, Conjunction.conjuncts, mem_append, or_and_right, exists_or]
    rw [or_assoc, or_left_comm]
  | term conjunct =>
    simp only [fillEquals, Conjunction.conjuncts, mem_singleton, exists_eq_left, Conjunct.Compares]
    cases ids : conjunct.equalsIds catalog with
    | none => simp
    | some pair =>
      simp only [EqualsIds.mark, Bool.or_eq_true, Bool.and_eq_true, beq_iff_eq,
        Option.some.injEq, Prod.ext_iff]
      tauto

variable (clause : Option (Conjunction Value))

theorem fillWhereEquals_clause :
    (fillWhereEquals catalog clause).1 = clause := by
  cases clause with
  | none => rfl
  | some conjunction => exact fillEquals_clause catalog conjunction _

variable (first second : Nat) {behind : List TableJoin}

theorem fillWhereEquals_iff :
    (fillWhereEquals catalog clause).2 first second = true ↔
      ∃ conjunct ∈ whereConjuncts clause, conjunct.Compares catalog first second := by
  cases clause with
  | none => simp [fillWhereEquals, whereConjuncts]
  | some conjunction =>
    rw [fillWhereEquals, fillEquals_iff]
    simp [whereConjuncts]

/-! ## Where the tables stand -/

theorem tableJoinArray_concat (front : List TableJoin) (node : TableJoin) :
    tableJoinArray (front ++ [node]) =
      update (tableJoinArray front) node.table (some front.length) := by
  rw [tableJoinArray, zipIdx_append, foldl_append, Nat.zero_add]
  rfl

/-- The array knows the places of the tables in front. -/
theorem tableJoinArray_knows {front : List TableJoin} (distinct : (front.map table).Nodup) :
    KnowsFrom 0 (tableJoinArray front) (front.map table) := by
  induction front using reverseRecOn with
  | nil => exact fun place id _ found => absurd found (by simp)
  | append_singleton front node ih =>
    rw [map_append, nodup_append] at distinct
    obtain ⟨frontDistinct, -, apart⟩ := distinct
    intro place id _ found
    rw [map_append, map_singleton, getElem?_append, length_map] at found
    rw [tableJoinArray_concat]
    split at found
    · have member := mem_of_getElem? found
      rw [update_of_ne (apart id member node.table (mem_singleton_self _))]
      exact ih frontDistinct place id (Nat.zero_le place) found
    · have last : place - front.length = 0 := by
        have := (List.getElem?_eq_some_iff.mp found).1
        rw [length_singleton] at this
        omega
      rw [last] at found
      rw [← Option.some.inj found, update_self]
      congr 1
      omega

/-- The array has an entry for the tables in front only. -/
theorem tableJoinArray_isSome (front : List TableJoin) (id : Nat) :
    (tableJoinArray front id).isSome = true ↔ id ∈ front.map table := by
  induction front using reverseRecOn with
  | nil => exact iff_of_false Bool.false_ne_true not_mem_nil
  | append_singleton front node ih =>
    rw [tableJoinArray_concat, map_append, mem_append, ← ih, map_singleton, mem_singleton]
    by_cases same : id = node.table
    · subst same
      rw [update_self]
      exact iff_of_true rfl (Or.inr rfl)
    · rw [update_of_ne same, or_iff_left same]

/-! ## The sorted ids -/

section Sorted

variable {maxUniqueId : Nat} {array : Nat → Option Nat} {equals : EqualsIds}

theorem mem_comparedIds {other : Nat} :
    other ∈ comparedIds maxUniqueId array equals sorted id ↔
      other < maxUniqueId ∧ other ∉ sorted ∧ (array other).isSome = true ∧
        equals id other = true := by
  rw [comparedIds, unsorted, mem_filter, mem_filter, and_assoc]
  simp

theorem nodup_comparedIds (sorted : List Nat) (id : Nat) :
    (comparedIds maxUniqueId array equals sorted id).Nodup :=
  (nodup_range.filter _).filter _

/-- The ids that are sorted so far stay in front. -/
theorem sortIds_append (sorted pending : List Nat) :
    ∃ more, sortIds maxUniqueId array equals sorted pending = sorted ++ more := by
  fun_induction sortIds maxUniqueId array equals sorted pending with
  | case1 sorted => exact ⟨[], (append_nil sorted).symm⟩
  | case2 sorted id pending ih =>
    obtain ⟨more, extended⟩ := ih
    exact ⟨_, extended.trans (append_assoc _ _ _)⟩

/-- Every id is sorted once, and only ids of tables in front are. -/
theorem sortIds_nodup (pending : List Nat) (distinct : sorted.Nodup)
    (known : ∀ id ∈ sorted, (array id).isSome = true) :
    (sortIds maxUniqueId array equals sorted pending).Nodup ∧
      ∀ id ∈ sortIds maxUniqueId array equals sorted pending, (array id).isSome = true := by
  fun_induction sortIds maxUniqueId array equals sorted pending with
  | case1 sorted => exact ⟨distinct, known⟩
  | case2 sorted id pending ih =>
    apply ih
    · rw [nodup_append]
      refine ⟨distinct, nodup_comparedIds sorted id, ?_⟩
      rintro other inSorted _ inNew rfl
      exact (mem_comparedIds.mp inNew).2.1 inSorted
    · exact forall_mem_append.2 ⟨known, fun other inNew => (mem_comparedIds.mp inNew).2.2.1⟩

/-- The sorted ids start with the first id that is compared with a constant. -/
theorem head?_sortedIds :
    (sortedIds maxUniqueId array equals).head? =
      (comparedIds maxUniqueId array equals [] 0).head? := by
  obtain ⟨more, extended⟩ := @sortIds_append maxUniqueId array equals
    (comparedIds maxUniqueId array equals [] 0) (comparedIds maxUniqueId array equals [] 0)
  rw [sortedIds, sortIds, nil_append]
  cases compared : comparedIds maxUniqueId array equals [] 0 with
  | nil => rw [sortIds]
  | cons id rest =>
    rw [compared] at extended
    rw [extended]
    rfl

end Sorted

/-! ## The nodes in front -/

/-- What a node has besides its table. -/
def TableJoin.shape (node : TableJoin) : JoinType × Option OnCondition :=
  (node.joinType, node.onCondition)

theorem map_table_swapTables :
    (swapTables nodes first second).map table =
      swapAt (nodes.map table) first second := by
  rw [swapTables, swapAt, getElem?_map, getElem?_map]
  cases nodes[first]? with
  | none => rfl
  | some left =>
    cases nodes[second]? with
    | none => rfl
    | some right =>
      rw [map_set, map_set]
      rfl

theorem map_shape_swapTables :
    (swapTables nodes first second).map shape = nodes.map shape := by
  unfold swapTables
  split
  · rename_i left right atFirst atSecond
    have shapeAt (place : Nat) (node : TableJoin) (found : nodes[place]? = some node) :
        (nodes.map shape).set place node.shape = nodes.map shape := by
      have mapped : (nodes.map shape)[place]? = some node.shape := by
        rw [getElem?_map, found, Option.map_some]
      obtain ⟨inside, same⟩ := List.getElem?_eq_some_iff.mp mapped
      rw [← same, set_getElem_self inside]
    rw [map_set, map_set]
    show ((nodes.map shape).set first left.shape).set second right.shape = _
    rw [shapeAt first left atFirst, shapeAt second right atSecond]
  · rfl

/-- The loop brings the tables of the nodes into the order and leaves the rest of the nodes. -/
theorem fixOrder_eq (sorted : List Nat) (cur : Nat) (array : Nat → Option Nat)
    (nodes : List TableJoin) :
    (fixOrder sorted cur array nodes).map (map table) =
        placeItems sorted cur array (nodes.map table) ∧
      ∀ result, fixOrder sorted cur array nodes = some result →
        result.map shape = nodes.map shape := by
  induction sorted generalizing cur array nodes with
  | nil => exact ⟨rfl, fun result same => by rw [Option.some.inj same]⟩
  | cons id sorted ih =>
    rw [fixOrder, placeItems, getElem?_map]
    cases array id with
    | none => exact ⟨rfl, fun _ isSome => by cases isSome⟩
    | some right =>
      cases nodes[cur]? with
      | none => exact ⟨rfl, fun _ isSome => by cases isSome⟩
      | some node =>
        simp only [Option.bind_eq_bind, Option.bind_some, Option.map_some]
        by_cases same : cur = right
        · rw [if_pos same, if_pos same]
          exact ih (cur + 1) array nodes
        · rw [if_neg same, if_neg same, ← map_table_swapTables]
          obtain ⟨tables, shapes⟩ := ih (cur + 1)
            (update array node.table (some right)) (swapTables nodes cur right)
          refine ⟨tables, fun result computed => ?_⟩
          rw [shapes result computed, map_shape_swapTables]

/-- The nodes in front are fixed: their tables are permuted, those that were sorted come first. -/
theorem fixOrder_front {front : List TableJoin} (distinct : (front.map table).Nodup)
    (once : sorted.Nodup) (known : ∀ id ∈ sorted, (tableJoinArray front id).isSome = true) :
    ∃ nodes, fixOrder sorted 0 (tableJoinArray front) front = some nodes ∧
      nodes.map shape = front.map shape ∧
      (nodes.map table).Perm (front.map table) ∧
      (nodes.map table).take sorted.length = sorted := by
  obtain ⟨tables, shapes⟩ := fixOrder_eq sorted 0 (tableJoinArray front) front
  obtain ⟨result, placed, perm, taken⟩ := placeItems_spec (tableJoinArray_knows distinct) distinct
    (Nat.zero_le _) (by simpa using once)
    fun id member => (tableJoinArray_isSome front id).mp (known id member)
  rw [placed] at tables
  obtain ⟨nodes, computed, rfl⟩ := Option.map_eq_some_iff.mp tables
  exact ⟨nodes, computed, shapes nodes computed, perm, by simpa using taken⟩

/-! ## Lists of CROSS and NATURAL JOINs -/

/-- The WHERE clause compares a column of the table with a constant. -/
def ComparedWithConstant (catalog : Catalog) (clause : Option (Conjunction Value)) (table : Nat) :
    Prop :=
  ∃ conjunct ∈ whereConjuncts clause, conjunct.Compares catalog 0 table

/-- No table of a CROSS JOIN is sorted in front of the first table. -/
def FirstTableLeads (catalog : Catalog) (list : JoinList) (clause : Option (Conjunction Value)) :
    Prop :=
  ∀ node ∈ list.rest, node.isCross = true → ComparedWithConstant catalog clause node.table →
    ComparedWithConstant catalog clause list.first.table ∧ list.first.table < node.table

/-- The first table has an ON condition that refers to it. -/
def FirstHasCondition (list : JoinList) : Prop :=
  ∃ condition ∈ list.first.onCondition, list.first.table ∈ condition.tables

/-- The CROSS JOINs of the list. -/
def JoinList.crosses (list : JoinList) : List TableJoin :=
  list.rest.filter isCross

/-- The other joins of the list. -/
def JoinList.others (list : JoinList) : List TableJoin :=
  list.rest.filter fun node => !node.isCross

/-- The nodes that are sorted: the first table and the CROSS JOINs. -/
def JoinList.front (list : JoinList) : List TableJoin :=
  list.first :: list.crosses

/-- What the reordering has to leave of a list of CROSS and NATURAL JOINs. -/
structure ReorderedList (list : JoinList) (nodes : List TableJoin) : Prop where
  tables : (nodes.map table).Perm (list.nodes.map table)
  first : nodes.head?.map joinType = some .noJoin
  /-- The first table and the tables of the CROSS JOINs come first, then the NATURAL JOINs as they
  were. -/
  front : ∃ front, nodes = front ++ list.others ∧
    (front.map table).Perm (list.front.map table)
  on_before : nodes.Pairwise OnIgnores

/-- `sorted_array` for a list of CROSS and NATURAL JOINs. -/
def JoinList.sortedArray (list : JoinList) (catalog : Catalog)
    (clause : Option (Conjunction Value)) : List Nat :=
  Logical.sortedArray list.maxUniqueId (tableJoinArray list.front)
    (fillWhereEquals catalog clause).2

section Compatible

variable (list : JoinList) (clause : Option (Conjunction Value))

theorem front_distinct : (list.front.map table).Nodup :=
  list.distinct.sublist ((filter_sublist.cons_cons list.first).map table)

theorem mem_tables_front :
    id ∈ list.front.map table ↔
      id = list.first.table ∨ ∃ node ∈ list.rest, node.isCross = true ∧ node.table = id := by
  rw [JoinList.front, map_cons]
  simp [JoinList.crosses, and_assoc]

/-- The ids that are compared with a constant, in the order of their numbers. -/
theorem find?_compared :
    (comparedIds list.maxUniqueId (tableJoinArray list.front)
        (fillWhereEquals catalog clause).2 [] 0).head? =
      (range list.maxUniqueId).find? fun id => (tableJoinArray list.front id).isSome &&
        (fillWhereEquals catalog clause).2 0 id := by
  rw [comparedIds, unsorted]
  simp

theorem compared_iff :
    ((tableJoinArray list.front id).isSome && (fillWhereEquals catalog clause).2 0 id) = true ↔
      id ∈ list.front.map table ∧ ComparedWithConstant catalog clause id := by
  rw [Bool.and_eq_true, tableJoinArray_isSome, fillWhereEquals_iff, ComparedWithConstant]

/-- The first sorted id is that of the first table exactly when no table of a CROSS JOIN is sorted
in front of it. -/
theorem firstTableLeads_iff :
    (∀ id ∈ (sortedIds list.maxUniqueId (tableJoinArray list.front)
        (fillWhereEquals catalog clause).2).head?, id = list.first.table) ↔
      FirstTableLeads catalog list clause := by
  rw [head?_sortedIds, find?_compared]
  have inFront (node : TableJoin) (member : node ∈ list.rest) (cross : node.isCross = true) :
      node.table ∈ list.front.map table :=
    (mem_tables_front list).mpr (Or.inr ⟨node, member, cross, rfl⟩)
  have firstInFront := (mem_tables_front list).mpr (Or.inl (rfl : list.first.table = _))
  constructor
  · intro leads node member cross compared
    have known := (list.known node (mem_cons_of_mem _ member)).2
    have candidate := (compared_iff catalog list clause).mpr ⟨inFront node member cross, compared⟩
    cases found : (range list.maxUniqueId).find? fun id =>
        (tableJoinArray list.front id).isSome && (fillWhereEquals catalog clause).2 0 id with
    | none =>
      exact absurd candidate (find?_eq_none.mp found _ (mem_range.mpr known))
    | some id =>
      obtain rfl := leads id found
      obtain ⟨holds, -, least⟩ := find?_range_eq_some.mp found
      refine ⟨((compared_iff catalog list clause).mp holds).2, ?_⟩
      have notBefore : ¬node.table < list.first.table := fun before => by
        have := least _ before
        rw [candidate] at this
        cases this
      have apart : list.first.table ≠ node.table :=
        (nodup_cons.mp list.distinct).1.comp (· ▸ mem_map_of_mem member)
      omega
  · intro leads id found
    obtain ⟨holds, -, least⟩ := find?_range_eq_some.mp found
    obtain ⟨member, compared⟩ := (compared_iff catalog list clause).mp holds
    obtain same | ⟨node, inRest, cross, rfl⟩ := (mem_tables_front list).mp member
    · exact same
    · obtain ⟨firstCompared, before⟩ := leads node inRest cross compared
      have := least _ before
      rw [(compared_iff catalog list clause).mpr ⟨firstInFront, firstCompared⟩] at this
      cases this

/-- Every id is sorted once, and only ids of tables in front are. -/
theorem sortedIds_nodup :
    (sortedIds list.maxUniqueId (tableJoinArray list.front)
        (fillWhereEquals catalog clause).2).Nodup ∧
      ∀ id ∈ sortedIds list.maxUniqueId (tableJoinArray list.front)
        (fillWhereEquals catalog clause).2, (tableJoinArray list.front id).isSome = true :=
  sortIds_nodup [0] nodup_nil fun _ member => absurd member not_mem_nil

theorem length_sortedArray_le :
    (list.sortedArray catalog clause).length ≤ list.crosses.length + 2 := by
  obtain ⟨once, known⟩ := sortedIds_nodup catalog list clause
  have bound := once.length_le_of_subset fun id member =>
    (tableJoinArray_isSome list.front id).mp (known id member)
  have count : list.front.length = list.crosses.length + 1 := rfl
  rw [length_map] at bound
  rw [JoinList.sortedArray, sortedArray, length_cons]
  omega

/-- What the function does with a list of CROSS and NATURAL JOINs. -/
theorem lpOptimizeCrossJoin_compatible (compatible : ∀ node ∈ list.rest, node.isCompatible = true) :
    ∃ nodes, lpOptimizeCrossJoin catalog list clause = some (nodes ++ list.others, clause) ∧
      nodes.map shape = list.front.map shape ∧
      (nodes.map table).Perm (list.front.map table) ∧
      ((nodes.map table).head? = some list.first.table ↔
        FirstTableLeads catalog list clause) := by
  rw [lpOptimizeCrossJoin, gatherCrossJoins_compatible compatible]
  by_cases none : list.crosses.length = 0
  · refine ⟨list.front, ?_, rfl, List.Perm.refl _, iff_of_true rfl ?_⟩
    · exact if_pos none
    · intro node member cross
      have empty := filter_eq_nil_iff.mp (length_eq_zero_iff.mp none) node member
      exact absurd cross empty
  · obtain ⟨once, known⟩ := sortedIds_nodup catalog list clause
    obtain ⟨nodes, computed, shapes, perm, taken⟩ :=
      fixOrder_front (front_distinct list) once known
    refine ⟨nodes, ?_, shapes, perm, ?_⟩
    · refine (if_neg none).trans ?_
      show ((fixOrder (sortedIds list.maxUniqueId (tableJoinArray list.front)
        (fillWhereEquals catalog clause).2) 0 (tableJoinArray list.front) list.front).bind
          fun nodes => some (nodes ++ list.others, (fillWhereEquals catalog clause).1)) = _
      rw [computed, Option.bind_some, fillWhereEquals_clause]
    · rw [← firstTableLeads_iff]
      cases sorted : sortedIds list.maxUniqueId (tableJoinArray list.front)
          (fillWhereEquals catalog clause).2 with
      | nil =>
        rw [sorted] at computed
        rw [← Option.some.inj computed]
        exact iff_of_true rfl fun id none => nomatch none
      | cons id rest =>
        rw [sorted] at taken
        have head : (nodes.map table).head? = some id := by
          have heads := congrArg head? taken
          rwa [head?_take]
            at heads
        rw [head]
        simp

end Compatible

/-- The ON conditions of the reordered list are right when the condition of the first place is. -/
theorem onIgnores_reordered (shapes : (node :: behind).map shape = list.front.map shape) :
    (node :: behind ++ list.others).Pairwise OnIgnores ↔
      ∀ condition ∈ list.first.onCondition,
        ∀ later ∈ behind ++ list.others, later.table ∉ condition.tables := by
  obtain ⟨firstShape, crossShapes⟩ := cons.inj shapes
  have sameCondition : node.onCondition = list.first.onCondition := congrArg Prod.snd firstShape
  have noCondition (cross : TableJoin) (member : cross ∈ behind) : cross.onCondition = none := by
    have inShapes : cross.shape ∈ list.crosses.map shape :=
      crossShapes ▸ mem_map_of_mem member
    obtain ⟨old, inCrosses, same⟩ := mem_map.mp inShapes
    obtain ⟨inRest, isCross⟩ := mem_filter.mp inCrosses
    exact (congrArg Prod.snd same).symm.trans (list.cross_on old inRest isCross)
  have rest : (behind ++ list.others).Pairwise OnIgnores := by
    have ignores (cross : TableJoin) (member : cross ∈ behind) (other : TableJoin) :
        cross.OnIgnores other := by
      rw [OnIgnores, noCondition cross member]
      exact fun condition none => nomatch none
    rw [pairwise_append]
    refine ⟨pairwise_iff_forall_sublist.mpr fun pair => ?_, ?_, ?_⟩
    · exact ignores _ (pair.subset mem_cons_self) _
    · exact (pairwise_cons.mp list.on_before).2.sublist filter_sublist
    · exact fun cross member other _ => ignores cross member other
  rw [cons_append, pairwise_cons, and_iff_left rest]
  simp only [OnIgnores, sameCondition]
  exact ⟨fun each condition has later member => each later member condition has,
    fun each later member condition has => each condition has later member⟩

/-- The ON condition of the first place refers to no later table exactly when the first table stays
there or is not referred to. -/
theorem firstCondition_iff (tables : (((node :: behind) ++ list.others).map table).Perm
      (list.nodes.map table)) :
    (∀ condition ∈ list.first.onCondition,
        ∀ later ∈ behind ++ list.others, later.table ∉ condition.tables) ↔
      (FirstHasCondition list → node.table = list.first.table) := by
  have ignored : ∀ condition ∈ list.first.onCondition, ∀ later ∈ list.rest,
      later.table ∉ condition.tables := fun condition has later member =>
    (pairwise_cons.mp list.on_before).1 later member condition has
  have inAll (id : Nat) : id ∈ (node :: (behind ++ list.others)).map table ↔
      id ∈ (list.first :: list.rest).map table := tables.mem_iff
  constructor
  · rintro each ⟨condition, has, refers⟩
    have member := (inAll list.first.table).mpr mem_cons_self
    rw [map_cons, mem_cons] at member
    obtain same | inLater := member
    · exact same.symm
    · obtain ⟨later, laterIn, same⟩ := mem_map.mp inLater
      exact absurd (same ▸ refers) (each condition has later laterIn)
  · intro stays condition has later member refers
    have inTables := (inAll later.table).mp
      (mem_cons_of_mem _ (mem_map_of_mem member))
    rw [map_cons, mem_cons] at inTables
    obtain isFirst | inRest := inTables
    · have same := stays ⟨condition, has, isFirst ▸ refers⟩
      have distinct : ((node :: (behind ++ list.others)).map table).Nodup :=
        tables.nodup_iff.mpr list.distinct
      rw [map_cons, nodup_cons, same, ← isFirst] at distinct
      exact distinct.1 (mem_map_of_mem member)
    · obtain ⟨old, oldIn, same⟩ := mem_map.mp inRest
      exact ignored condition has old oldIn (same ▸ refers)

/-- A list of CROSS and NATURAL JOINs is reordered as it has to be exactly when no table is sorted
in front of a first table that has an ON condition of its own. -/
theorem lpOptimizeCrossJoin_reordered_iff (catalog : Catalog) (list : JoinList)
    (clause : Option (Conjunction Value))
    (compatible : ∀ node ∈ list.rest, node.isCompatible = true) :
    ((∃ nodes, lpOptimizeCrossJoin catalog list clause = some (nodes, clause) ∧
        ReorderedList list nodes) ∧
      (list.sortedArray catalog clause).length ≤ list.crosses.length + 2) ↔
      (FirstHasCondition list → FirstTableLeads catalog list clause) := by
  rw [and_iff_left (length_sortedArray_le catalog list clause)]
  obtain ⟨front, computed, shapes, perm, leads⟩ :=
    lpOptimizeCrossJoin_compatible catalog list clause compatible
  obtain ⟨node, behind, rfl⟩ : ∃ node behind, front = node :: behind := by
    cases front with
    | nil => cases shapes
    | cons node behind => exact ⟨node, behind, rfl⟩
  have tables : ((node :: behind ++ list.others).map table).Perm
      (list.nodes.map table) := by
    have partition : (list.front ++ list.others).Perm list.nodes :=
      (filter_append_perm isCross list.rest).cons list.first
    rw [map_append]
    refine (perm.append_right _).trans ?_
    rw [← map_append]
    exact partition.map table
  have onBefore := (onIgnores_reordered shapes).trans (firstCondition_iff tables)
  have leadsIff : node.table = list.first.table ↔ FirstTableLeads catalog list clause := by
    rw [← leads, map_cons, head?_cons, Option.some.injEq]
  rw [← leadsIff, ← onBefore]
  constructor
  · rintro ⟨nodes, result, reordered⟩
    rw [computed] at result
    obtain ⟨rfl, -⟩ := Prod.mk.inj (Option.some.inj result)
    exact reordered.on_before
  · intro ignores
    refine ⟨_, computed, tables, ?_, ⟨node :: behind, rfl, perm⟩, ignores⟩
    have firstType : node.joinType = list.first.joinType :=
      congrArg Prod.fst (cons.inj shapes).1
    rw [cons_append, head?_cons, Option.map_some, firstType, list.first_noJoin]

/-- `t1 NATURAL JOIN t2 CROSS JOIN t3`, with the given ON condition at `t1`. -/
def naturalCross (onCondition : Option OnCondition)
    (own : ∀ condition ∈ onCondition, condition.tables = [1]) : JoinList where
  first := ⟨.noJoin, onCondition, 1⟩
  rest := [⟨.naturalJoin, some ⟨0, [1, 2]⟩, 2⟩, ⟨.crossJoin, none, 3⟩]
  maxUniqueId := 4
  first_noJoin := rfl
  distinct := by simp
  known := by simp
  cross_on := by decide
  on_before := by
    refine List.pairwise_cons.mpr ⟨fun later member condition has => ?_, by decide⟩
    rw [own condition has]
    revert later
    decide

/-- `WHERE t3.y = 3`. -/
def thirdCompared : Option (Conjunction Nat) :=
  some (.term (.comparison .equals (.columnAlias 3 "y") (.value (some 3) false)))

theorem naturalCross_reordered :
    ∃ nodes, lpOptimizeCrossJoin plainCatalog (naturalCross none (by simp)) thirdCompared =
        some (nodes, thirdCompared) ∧
      ReorderedList (naturalCross none (by simp)) nodes :=
  ((lpOptimizeCrossJoin_reordered_iff plainCatalog (naturalCross none (by simp)) thirdCompared
    (by decide)).mpr (by rintro ⟨condition, none, -⟩; cases none)).1

/-- With `t1.x = 5` as the ON condition of `t1`, the table `t3` is put at the first place, and the
condition stays there. -/
theorem naturalCross_condition_before_table :
    lpOptimizeCrossJoin plainCatalog (naturalCross (some ⟨1, [1]⟩) (by simp)) thirdCompared =
        some ([⟨.noJoin, some ⟨1, [1]⟩, 3⟩, ⟨.crossJoin, none, 1⟩,
          ⟨.naturalJoin, some ⟨0, [1, 2]⟩, 2⟩], thirdCompared) ∧
      ¬(⟨.noJoin, some ⟨1, [1]⟩, 3⟩ : TableJoin).OnIgnores ⟨.crossJoin, none, 1⟩ := by
  have sorted : sortedIds 4 (tableJoinArray [⟨.noJoin, some ⟨1, [1]⟩, 1⟩, ⟨.crossJoin, none, 3⟩])
      (fillWhereEquals plainCatalog thirdCompared).2 = [3] := by
    rw [sortedIds, sortIds, show comparedIds 4 _ _ [] 0 = [3] from rfl, nil_append, sortIds,
      show comparedIds 4 _ _ [3] 3 = [] from rfl, append_nil, append_nil, sortIds]
  refine ⟨?_, by decide⟩
  show ((fixOrder (sortedIds 4
    (tableJoinArray [⟨.noJoin, some ⟨1, [1]⟩, 1⟩, ⟨.crossJoin, none, 3⟩])
      (fillWhereEquals plainCatalog thirdCompared).2) 0 _ _).bind
        fun nodes => some (nodes ++ _, _)) = _
  rw [sorted]
  rfl

end Octo.Logical
