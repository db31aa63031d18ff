import Octo.Foundation.DirectedLex

/-!
# Nested loops over rows

The rows of a table are lists of subscripts, one for each level. A loop for each level, one inside
the other, visits rows of the table: the loop of a level chooses from the subscripts that are stored
under those that the outer loops are at. When every loop goes in its own direction, the rows come in
the lexicographic order of these directions.
-/
namespace Octo.Foundation

open List

variable {Sub Level : Type} [LinearOrder Sub]

/-- The rows below a subscript. -/
def tailsOf (sub : Sub) (rows : List (List Sub)) : List (List Sub) :=
  rows.filterMap fun row =>
    match row with
    | [] => none
    | first :: rest => if first = sub then some rest else none

/-- The rows that nested loops visit. The loop of a level depends on the subscripts of the outer
loops and on the subscripts that are stored under them. -/
def nestedScan (loop : Level → List Sub → List Sub → List Sub) :
    List Level → List Sub → List (List Sub) → List (List Sub)
  | [], _, rows => if rows = [] then [] else [[]]
  | level :: levels, outer, rows =>
    (loop level outer (rows.filterMap List.head?)).flatMap fun sub =>
      (nestedScan loop levels (outer ++ [sub]) (tailsOf sub rows)).map (sub :: ·)

variable {rows : List (List Sub)} {levels : List Level}

theorem mem_tailsOf {sub : Sub} {rest : List Sub} :
    rest ∈ tailsOf sub rows ↔ sub :: rest ∈ rows := by
  unfold tailsOf
  rw [mem_filterMap]
  constructor
  · rintro ⟨row, member, found⟩
    cases row with
    | nil => cases found
    | cons first others =>
      dsimp only at found
      split at found
      · rename_i same
        cases found
        rwa [← same]
      · cases found
  · intro member
    exact ⟨sub :: rest, member, if_pos rfl⟩

variable {loop : Level → List Sub → List Sub → List Sub}

theorem nestedScan_congr {other : Level → List Sub → List Sub → List Sub}
    (same : ∀ level ∈ levels, loop level = other level) {outer : List Sub} :
    nestedScan loop levels outer rows = nestedScan other levels outer rows := by
  induction levels generalizing outer rows with
  | nil => rfl
  | cons level levels ih =>
    rw [nestedScan, same level mem_cons_self]
    refine flatMap_congr fun sub _ => congrArg _ (ih fun later member => ?_)
    exact same later (mem_cons_of_mem _ member)

/-- The loops visit rows of the table. -/
theorem mem_of_mem_nestedScan {outer row : List Sub}
    (arity : ∀ other ∈ rows, other.length = levels.length)
    (member : row ∈ nestedScan loop levels outer rows) : row ∈ rows := by
  induction levels generalizing outer row rows with
  | nil =>
    unfold nestedScan at member
    split at member
    · cases member
    · rename_i notEmpty
      obtain ⟨other, inRows⟩ := exists_mem_of_ne_nil rows notEmpty
      rw [mem_singleton.mp member]
      rwa [length_eq_zero_iff.mp (arity other inRows)] at inRows
  | cons level levels ih =>
    obtain ⟨sub, -, inner⟩ := mem_flatMap.mp member
    obtain ⟨rest, inScan, rfl⟩ := mem_map.mp inner
    refine mem_tailsOf.mp (ih (fun other below => ?_) inScan)
    exact Nat.succ.inj (arity (sub :: other) (mem_tailsOf.mp below))

/-- The rows come in the order of the directions of the loops. -/
theorem nestedScan_pairwise {direction : Level → Bool} (sorted : ∀ level ∈ levels, ∀ outer stored,
      (loop level outer stored).Pairwise (precedes (direction level)))
    (outer : List Sub) (rows : List (List Sub)) :
    (nestedScan loop levels outer rows).Pairwise (lexStrict (levels.map direction)) := by
  induction levels generalizing outer rows with
  | nil =>
    unfold nestedScan
    split
    · exact List.Pairwise.nil
    · exact pairwise_singleton _ _
  | cons level levels ih =>
    refine pairwise_flatMap.mpr ⟨fun sub _ => pairwise_map.mpr ?_, ?_⟩
    · refine (ih (forall_mem_of_forall_mem_cons sorted) _ _).imp ?_
      exact fun before => Or.inr ⟨rfl, before⟩
    · refine (sorted level mem_cons_self _ _).imp fun {first second} before row inFirst => ?_
      intro other inSecond
      obtain ⟨rest, -, rfl⟩ := mem_map.mp inFirst
      obtain ⟨others, -, rfl⟩ := mem_map.mp inSecond
      exact Or.inl before

end Octo.Foundation
