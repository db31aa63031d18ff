import Mathlib

/-!
# Placing items by swaps

The items of a list are brought into a given order one place after the other. The item that belongs
to a place is swapped with the one that stands there, and a separate map says where an item stands.
Only the item that had to leave its place is entered into the map again: the places of items that
are in order are not asked for any more.
-/
namespace Octo.Foundation

open List Option Function

variable {Item : Type}
variable {items : List Item}

/-- Swaps the items at two places. -/
def swapAt (items : List Item) (first second : Nat) : List Item :=
  match items[first]?, items[second]? with
  | some left, some right => (items.set first right).set second left
  | _, _ => items

section Swap

variable {first second : Nat} {left right : Item}

theorem swapAt_eq (atFirst : items[first]? = some left) (atSecond : items[second]? = some right) :
    swapAt items first second = (items.set first right).set second left := by
  rw [swapAt, atFirst, atSecond]

theorem swapAt_perm (items : List Item) (first second : Nat) :
    (swapAt items first second).Perm items := by
  unfold swapAt
  split
  · rename_i left right atFirst atSecond
    obtain ⟨firstIn, rfl⟩ := List.getElem?_eq_some_iff.mp atFirst
    obtain ⟨secondIn, rfl⟩ := List.getElem?_eq_some_iff.mp atSecond
    exact set_set_perm firstIn secondIn
  · exact List.Perm.refl items

theorem getElem?_swapAt (atFirst : items[first]? = some left)
    (atSecond : items[second]? = some right) (place : Nat) :
    (swapAt items first second)[place]? =
      if place = second then some left
      else if place = first then some right else items[place]? := by
  have firstIn := (List.getElem?_eq_some_iff.mp atFirst).1
  have secondIn := (List.getElem?_eq_some_iff.mp atSecond).1
  rw [swapAt_eq atFirst atSecond]
  by_cases isSecond : place = second
  · subst isSecond
    rw [if_pos rfl, getElem?_set_self (by rwa [length_set])]
  · rw [if_neg isSecond, getElem?_set_ne (Ne.symm isSecond)]
    by_cases isFirst : place = first
    · subst isFirst
      rw [if_pos rfl, getElem?_set_self firstIn]
    · rw [if_neg isFirst, getElem?_set_ne (Ne.symm isFirst)]

/-- One step puts the next item of the order at its place. -/
theorem take_swapAt {place found : Nat} {here item : Item}
    (behind : place ≤ found) (atPlace : items[place]? = some here)
    (atFound : items[found]? = some item) :
    (swapAt items place found).take (place + 1) = items.take place ++ [item] := by
  apply List.ext_getElem?
  intro other
  have inside := (List.getElem?_eq_some_iff.mp atPlace).1
  rw [List.getElem?_take, getElem?_swapAt atPlace atFound, List.getElem?_append, List.length_take,
    Nat.min_eq_left (Nat.le_of_lt inside), List.getElem?_take]
  rcases Nat.lt_trichotomy other place with before | same | after
  · rw [if_pos (show other < place + 1 by omega), if_neg (show ¬other = found by omega),
      if_neg (show ¬other = place by omega), if_pos before, if_pos before]
  · subst same
    rw [if_pos (Nat.lt_succ_self other), if_neg (Nat.lt_irrefl other), if_pos rfl, Nat.sub_self,
      getElem?_cons_zero]
    split
    · rename_i isFound
      rw [← atFound, ← isFound, atPlace]
    · rfl
  · rw [if_neg (show ¬other < place + 1 by omega), if_neg (show ¬other < place by omega),
      getElem?_eq_none (by rw [length_singleton]; omega)]

end Swap

/-- The map is right about the places that are not in order yet. -/
def KnowsFrom (place : Nat) (position : Item → Option Nat) (items : List Item) : Prop :=
  ∀ other item, place ≤ other → items[other]? = some item → position item = some other

variable {place : Nat} {position : Item → Option Nat} (knows : KnowsFrom place position items)

include knows in
theorem KnowsFrom.mono {next : Nat} (later : place ≤ next) : KnowsFrom next position items :=
  fun other item behind => knows other item (Nat.le_trans later behind)

include knows in
/-- An item that is not among the first ones stands at a later place, and the map knows it. -/
theorem KnowsFrom.found {item : Item} (member : item ∈ items) (later : item ∉ items.take place) :
    ∃ found, place ≤ found ∧ items[found]? = some item ∧ position item = some found := by
  obtain ⟨found, inside, rfl⟩ := mem_iff_getElem.mp member
  have at_found : items[found]? = some (items[found]) := getElem?_eq_getElem inside
  have behind : place ≤ found := by
    by_contra before
    exact later (mem_take_iff_getElem.mpr ⟨found, by omega, rfl⟩)
  exact ⟨found, behind, at_found, knows found _ behind at_found⟩

variable [DecidableEq Item]

/-- Brings the items into the given order from a place on. There is no result when an item or a
place is not known. -/
def placeItems : List Item → Nat → (Item → Option Nat) → List Item → Option (List Item)
  | [], _, _, items => some items
  | item :: order, place, position, items => do
      let found ← position item
      let here ← items[place]?
      if place = found then
        placeItems order (place + 1) position items
      else
        placeItems order (place + 1) (Function.update position here (some found))
          (swapAt items place found)

include knows in
/-- After a swap the map is right about the places behind the one that is in order now. -/
theorem KnowsFrom.swap {found : Nat} {here item : Item} (distinct : items.Nodup)
    (atPlace : items[place]? = some here) (atFound : items[found]? = some item) :
    KnowsFrom (place + 1) (update position here (some found))
      (swapAt items place found) := by
  intro other moved behind at_other
  rw [getElem?_swapAt atPlace atFound] at at_other
  by_cases isFound : other = found
  · rw [if_pos isFound] at at_other
    obtain rfl := some.inj at_other
    rw [update_self, isFound]
  · rw [if_neg isFound, if_neg (by omega)] at at_other
    have notHere : moved ≠ here := by
      rintro rfl
      have inside := (List.getElem?_eq_some_iff.mp at_other).1
      have same := (List.getElem?_inj inside distinct).mp (at_other.trans atPlace.symm)
      omega
    rw [update_of_ne notHere]
    exact knows other moved (by omega) at_other

include knows in
/-- The items are brought into the order, and none is lost or repeated. -/
theorem placeItems_spec {order : List Item} (distinct : items.Nodup) (placed : place ≤ items.length)
    (ordered : (items.take place ++ order).Nodup) (members : order ⊆ items) :
    ∃ result, placeItems order place position items = some result ∧ result.Perm items ∧
      result.take (place + order.length) = items.take place ++ order := by
  induction order generalizing place position items with
  | nil => exact ⟨items, rfl, List.Perm.refl items, by simp⟩
  | cons item order ih =>
    have later : item ∉ items.take place := fun member =>
      (disjoint_of_nodup_append ordered member) mem_cons_self
    obtain ⟨found, behind, atFound, known⟩ :=
      knows.found (members mem_cons_self) later
    have foundIn := (List.getElem?_eq_some_iff.mp atFound).1
    have placeIn : place < items.length := by omega
    have atPlace : items[place]? = some items[place] := getElem?_eq_getElem placeIn
    have step (next : List Item) (position' : Item → Option Nat) (permuted : next.Perm items)
        (taken : next.take (place + 1) = items.take place ++ [item])
        (knows' : KnowsFrom (place + 1) position' next) :
        ∃ result, placeItems order (place + 1) position' next = some result ∧
          result.Perm items ∧
          result.take (place + (item :: order).length) = items.take place ++ item :: order := by
      obtain ⟨result, computed, perm, prefixed⟩ := ih knows' (permuted.nodup_iff.mpr distinct)
        (by rw [permuted.length_eq]; omega)
        (by rw [taken, append_assoc]; exact ordered)
        (fun other member => permuted.mem_iff.mpr (members (mem_cons_of_mem _ member)))
      refine ⟨result, computed, perm.trans permuted, ?_⟩
      rw [length_cons, show place + (order.length + 1) = place + 1 + order.length by omega,
        prefixed, taken, append_assoc, singleton_append]
    rw [placeItems, known, bind_eq_bind, bind_some, atPlace, bind_eq_bind, bind_some]
    by_cases same : place = found
    · rw [if_pos same]
      refine step items position (List.Perm.refl items) ?_ (knows.mono (Nat.le_succ place))
      rw [take_add_one, same, atFound, toList_some]
    · rw [if_neg same]
      exact step _ _ (swapAt_perm items place found) (take_swapAt behind atPlace atFound)
        (knows.swap distinct atPlace atFound)

end Octo.Foundation
