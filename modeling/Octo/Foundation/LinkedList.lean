import Mathlib

/-!
# Singly linked lists

Nodes in a heap are linked by the address of the next one. `Links` says which nodes are reached from
one pointer before another one is met. A chain that ends with a null pointer reaches no node twice,
so the write to the link of one of its nodes changes the chain at that node only.
-/
namespace Octo.Foundation

open List Function Option

/-- A node with the address of the next one. -/
structure Node (Item : Type) where
  item : Item
  next : Option Nat

/-- A node at every address. -/
abbrev NodeHeap (Item : Type) : Type :=
  Nat → Node Item

namespace NodeHeap

variable {Item : Type} {heap other : NodeHeap Item} {start stop middle : Option Nat}
  {first second addresses : List Nat} {address : Nat}

/-- Writes the link of a node. -/
def setNext (heap : NodeHeap Item) (address : Nat) (next : Option Nat) : NodeHeap Item :=
  Function.update heap address { heap address with next }

@[simp] theorem setNext_self (next : Option Nat) :
    heap.setNext address next address = { heap address with next } :=
  update_self _ _ _

theorem setNext_of_ne {position : Nat} (differs : position ≠ address) (next : Option Nat) :
    heap.setNext address next position = heap position :=
  update_of_ne differs _ _

@[simp] theorem item_setNext (next : Option Nat) (position : Nat) :
    (heap.setNext address next position).item = (heap position).item := by
  by_cases same : position = address
  · rw [same, setNext_self]
  · rw [setNext_of_ne same]

theorem setNext_eq_self {next : Option Nat} (same : (heap address).next = next) :
    heap.setNext address next = heap := by
  subst same
  exact update_eq_self address heap

/-- The nodes that are reached from one pointer before another one is met. -/
def Links (heap : NodeHeap Item) : Option Nat → List Nat → Option Nat → Prop
  | start, [], stop => start = stop
  | start, address :: rest, stop => start = some address ∧ heap.Links (heap address).next rest stop

@[simp] theorem links_nil : heap.Links start [] stop ↔ start = stop :=
  Iff.rfl

@[simp] theorem links_cons :
    heap.Links start (address :: addresses) stop ↔
      start = some address ∧ heap.Links (heap address).next addresses stop :=
  Iff.rfl

theorem links_append :
    heap.Links start (first ++ second) stop ↔
      ∃ middle, heap.Links start first middle ∧ heap.Links middle second stop := by
  induction first generalizing start with
  | nil => simp
  | cons address first ih => simp [ih, and_assoc]

theorem links_concat :
    heap.Links start (addresses ++ [address]) stop ↔
      heap.Links start addresses (some address) ∧ (heap address).next = stop := by
  rw [links_append]
  constructor
  · rintro ⟨middle, before, rfl, last⟩
    exact ⟨before, last⟩
  · rintro ⟨before, last⟩
    exact ⟨some address, before, rfl, last⟩

/-- A heap that agrees on the nodes of a chain has the same chain. -/
theorem Links.agree (links : heap.Links start addresses stop)
    (same : ∀ position ∈ addresses, other position = heap position) :
    other.Links start addresses stop := by
  induction addresses generalizing start with
  | nil => exact links
  | cons address addresses ih =>
    obtain ⟨here, rest⟩ := links
    refine ⟨here, ?_⟩
    rw [same address mem_cons_self]
    exact ih rest (forall_mem_of_forall_mem_cons same)

/-- The nodes up to a null pointer are determined by the pointer that they are reached from. -/
theorem links_null_unique (left : heap.Links start first none)
    (right : heap.Links start second none) : first = second := by
  induction first generalizing start second with
  | nil =>
    cases second with
    | nil => rfl
    | cons address second =>
      obtain ⟨here, -⟩ := right
      cases left.symm.trans here
  | cons address first ih =>
    obtain ⟨here, rest⟩ := left
    cases second with
    | nil => cases here.symm.trans right
    | cons other second =>
      obtain ⟨there, others⟩ := right
      obtain rfl : address = other := some.inj (here.symm.trans there)
      rw [ih rest others]

/-- No node is reached twice before a null pointer. -/
theorem Links.nodup (links : heap.Links start addresses none) : addresses.Nodup := by
  induction addresses generalizing start with
  | nil => exact nodup_nil
  | cons address addresses ih =>
    obtain ⟨-, rest⟩ := links
    refine nodup_cons.mpr ⟨fun member => ?_, ih rest⟩
    obtain ⟨before, behind, split⟩ := append_of_mem member
    have whole := rest
    rw [split, links_append] at whole
    obtain ⟨middle, -, rfl, again⟩ := whole
    have same := links_null_unique rest again
    have longer := congrArg length split
    rw [same, length_append, length_cons] at longer
    omega

/-- The last link of a chain is written. -/
theorem Links.setLast (links : heap.Links start (addresses ++ [address]) stop)
    (apart : address ∉ addresses) (next : Option Nat) :
    (heap.setNext address next).Links start (addresses ++ [address]) next := by
  obtain ⟨before, -⟩ := links_concat.mp links
  refine links_concat.mpr ⟨before.agree fun position member => ?_, by rw [setNext_self]⟩
  exact setNext_of_ne (ne_of_mem_of_not_mem member apart) next

theorem Links.setNext (links : heap.Links start addresses stop) (apart : address ∉ addresses)
    (next : Option Nat) : (heap.setNext address next).Links start addresses stop :=
  links.agree fun _ member => setNext_of_ne (ne_of_mem_of_not_mem member apart) next

/-! ## Walks -/

/-- Walks along the links to the last node. -/
def lastNode (heap : NodeHeap Item) : Nat → Nat → Option Nat
  | 0, _ => none
  | fuel + 1, address =>
    match (heap address).next with
    | none => some address
    | some next => heap.lastNode fuel next

theorem lastNode_eq {fuel : Nat} (links : heap.Links start (addresses ++ [address]) none)
    {head : Nat} (starts : start = some head) (enough : addresses.length < fuel) :
    heap.lastNode fuel head = some address := by
  induction addresses generalizing start head fuel with
  | nil =>
    obtain ⟨fuel, rfl⟩ := Nat.exists_eq_add_of_lt enough
    obtain ⟨here, last⟩ := links
    obtain rfl : address = head := some.inj (here.symm.trans starts)
    rw [lastNode, show (heap address).next = none from last]
  | cons position addresses ih =>
    obtain ⟨fuel, rfl⟩ := Nat.exists_eq_add_of_lt enough
    obtain ⟨here, rest⟩ := links
    obtain rfl : position = head := some.inj (here.symm.trans starts)
    obtain ⟨next, follows⟩ : ∃ next, (heap position).next = some next := by
      cases addresses <;> exact ⟨_, rest.1⟩
    rw [lastNode, follows]
    exact ih rest follows (Nat.lt_add_right fuel (Nat.lt_succ_self _))

end NodeHeap

end Octo.Foundation
