import Octo.Foundation.Sweep

/-!
# Trees of subscripted nodes

A tree is the finite set of the paths at which it has a node. A node comes before the nodes under it
and these come in the order of their subscripts, so that the order of the tree is the lexicographic
order of the paths. `query` walks from one node to the following one, `next` from one subscript to
the following one under a path, and `kill` removes a node with everything under it.
-/
namespace SubscriptTree

open Sweep Finset

variable {Sub : Type} [LinearOrder Sub]

/-- The node that follows `cursor`, whether there is a node at the cursor or not. -/
def query (nodes : Finset (List Sub)) (cursor : List Sub) : Option (List Sub) :=
  least (nodes.filter (cursor < ·))

/-- The nodes that are left after `path` was removed with everything under it. -/
def kill (nodes : Finset (List Sub)) (path : List Sub) : Finset (List Sub) :=
  nodes.filter (¬path <+: ·)

variable {nodes : Finset (List Sub)} {path node : List Sub}

@[simp]
theorem mem_kill : node ∈ kill nodes path ↔ node ∈ nodes ∧ ¬path <+: node :=
  mem_filter

theorem kill_subset (nodes : Finset (List Sub)) (path : List Sub) : kill nodes path ⊆ nodes :=
  filter_subset _ _

theorem card_kill_lt (present : path ∈ nodes) : (kill nodes path).card < nodes.card := by
  apply card_lt_card
  refine Finset.ssubset_iff_subset_ne.mpr ⟨kill_subset nodes path, fun same => ?_⟩
  rw [← same, mem_kill] at present
  exact present.2 (List.prefix_refl path)

/-- If nothing else is under a node, its removal removes this node only. -/
theorem kill_eq_erase (leaf : ∀ node ∈ nodes, path <+: node → node = path) :
    kill nodes path = nodes.erase path := by
  ext node
  rw [mem_kill, mem_erase]
  constructor
  · rintro ⟨present, apart⟩
    refine ⟨?_, present⟩
    rintro rfl
    exact apart (List.prefix_refl node)
  · rintro ⟨differs, present⟩
    exact ⟨present, fun starts => differs (leaf node present starts)⟩

theorem query_eq_some {cursor : List Sub} (found : query nodes cursor = some node) :
    node ∈ nodes ∧ cursor < node ∧ ∀ other ∈ nodes, cursor < other → node ≤ other := by
  unfold query least at found
  split at found
  case isFalse => cases found
  case isTrue nonempty =>
    obtain rfl := Option.some.inj found
    have member := min'_mem _ nonempty
    rw [mem_filter] at member
    refine ⟨member.1, member.2, fun other present follows => ?_⟩
    exact min'_le _ _ (mem_filter.mpr ⟨present, follows⟩)

/-- The walk finds a node as long as there is one behind the cursor, and none behind it. -/
theorem exists_query {cursor bound : List Sub} (present : bound ∈ nodes)
    (follows : cursor < bound) : ∃ node, query nodes cursor = some node ∧ node ≤ bound := by
  have nonempty : (nodes.filter (cursor < ·)).Nonempty :=
    ⟨bound, mem_filter.mpr ⟨present, follows⟩⟩
  have found : query nodes cursor = some _ := dif_pos nonempty
  exact ⟨_, found, (query_eq_some found).2.2 bound present follows⟩

/-- Paths under the same path enclose paths under this path only. -/
theorem starts_of_between {lower upper : List Sub} (startsLower : path <+: lower)
    (startsUpper : path <+: upper) (above : lower ≤ node) (below : node ≤ upper) :
    path <+: node := by
  induction path generalizing lower node upper with
  | nil => exact List.nil_prefix
  | cons head tail ih =>
    obtain ⟨lowerRest, rfl⟩ := startsLower
    obtain ⟨upperRest, rfl⟩ := startsUpper
    cases node with
    | nil => exact absurd above (by simp)
    | cons first rest =>
      rw [List.cons_append, ← not_lt, List.cons_lt_cons_iff, not_or] at above below
      obtain rfl : head = first := le_antisymm (not_lt.mp above.1) (not_lt.mp below.1)
      refine List.cons_prefix_cons.mpr ⟨rfl, ?_⟩
      refine ih (List.prefix_append tail lowerRest) (List.prefix_append tail upperRest) ?_ ?_
      · exact not_lt.mp fun less => above.2 ⟨rfl, less⟩
      · exact not_lt.mp fun less => below.2 ⟨rfl, less⟩

/-- Paths that differ in the subscript behind a common path are ordered by this subscript. -/
theorem append_lt_append (path : List Sub) {first second : Sub} (less : first < second)
    (firstRest secondRest : List Sub) :
    path ++ first :: firstRest < path ++ second :: secondRest :=
  List.append_left_lt (List.cons_lt_cons_iff.mpr (Or.inl less))

/-! ## The subscripts under a path -/

theorem sort_filter_lt {subs : Finset Sub} {cursor sub : Sub} (member : sub ∈ subs)
    (follows : cursor < sub) (isLeast : ∀ other ∈ subs, cursor < other → sub ≤ other) :
    (subs.filter (cursor < ·)).sort (· ≤ ·) = sub :: (subs.filter (sub < ·)).sort (· ≤ ·) := by
  have split : subs.filter (cursor < ·) = insert sub (subs.filter (sub < ·)) := by
    ext other
    simp only [mem_filter, mem_insert]
    constructor
    · rintro ⟨present, behind⟩
      rcases (isLeast other present behind).eq_or_lt with rfl | later
      · exact Or.inl rfl
      · exact Or.inr ⟨present, later⟩
    · rintro (rfl | ⟨present, later⟩)
      · exact ⟨member, follows⟩
      · exact ⟨present, follows.trans later⟩
  rw [split, sort_insert]
  · intro other above
    exact (mem_filter.mp above).2.le
  · simp

variable {State Error : Type}

/-- A loop over the subscripts under a path of a tree that it does not change. -/
theorem forEach_next {exhausted : Error} {body : Sub → State → Except Error State} (fuel : Nat)
    (cursor : Sub) (state : State)
    (enough : ((subscripts nodes path).filter (cursor < ·)).card < fuel) :
    forEach exhausted (fun cursor _ => next nodes path cursor) body fuel cursor state =
      forList body (((subscripts nodes path).filter (cursor < ·)).sort (· ≤ ·)) state := by
  induction fuel generalizing cursor state with
  | zero => simp at enough
  | succ fuel ih =>
    unfold forEach
    cases found : next nodes path cursor with
    | none =>
      have empty : (subscripts nodes path).filter (cursor < ·) = ∅ :=
        filter_eq_empty_iff.mpr fun _ present => next_eq_none found present
      simp [empty, forList]
    | some sub =>
      obtain ⟨present, follows, isLeast⟩ := next_eq_some found
      have fewer := (card_filter_lt_of_mem present follows).trans_le (Nat.le_of_lt_succ enough)
      rw [sort_filter_lt present follows isLeast, forList]
      dsimp only
      cases body sub state with
      | error error => rfl
      | ok after => exact ih sub after fewer

end SubscriptTree
