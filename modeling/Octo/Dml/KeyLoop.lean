import Octo.Foundation.Sweep

/-!
# The loops over the keys of one table

`tmpl_tablejoin` emits one loop for each key of a table, the innermost one around the body. An
unfixed key runs through `$ORDER`. A key that was fixed by the WHERE clause takes one value, the
values of an IN list, which are the subscripts of a local variable and so sorted and without
repetitions, or a range of `$ORDER`. The empty string is the least subscript and starts every
`$ORDER`, so that no loop over all subscripts reaches it.

The body can change the global that the loops run through. `handles_scanKeys` says that the loops
still bring the body to every path they have to handle, to each of them once, and that they end.
-/
namespace Octo.Dml

open Sweep Contract

variable {Text State Error : Type}

/-- How a key is iterated. NULL, here `none`, admits nothing. -/
inductive KeyLoop (Text : Type) where
  | unfixed
  | equals (value : Option Text)
  | isIn (values : List (Option Text))
  | lessThan (bound : Option Text)
  | lessThanOrEquals (bound : Option Text)
  | greaterThan (bound : Option Text)
  | greaterThanOrEquals (bound : Option Text)

open KeyLoop

/-- What the loops of one scan share. -/
structure KeyScan (Text State Error : Type) where
  /-- The subscripts of the nodes that are there in a state. -/
  paths : State → Finset (List Text)
  /-- What is emitted inside of the innermost loop. -/
  body : List Text → State → Except Error State
  /-- A bound for the iterations of each loop, and the error of a loop that exceeds it. -/
  fuel : Nat
  exhausted : Error

variable [LinearOrder Text]

/-- The subscripts to which a loop comes if there is a node. -/
def KeyLoop.Admits [OrderBot Text] : KeyLoop Text → Text → Prop
  | .unfixed, sub => ⊥ < sub
  | .equals value, sub => value = some sub
  | .isIn values, sub => some sub ∈ values
  | .lessThan bound, sub => ⊥ < sub ∧ ∃ limit, bound = some limit ∧ sub < limit
  | .lessThanOrEquals bound, sub => ⊥ < sub ∧ ∃ limit, bound = some limit ∧ sub ≤ limit
  | .greaterThan bound, sub => ∃ limit, bound = some limit ∧ limit < sub
  | .greaterThanOrEquals bound, sub => ∃ limit, bound = some limit ∧ limit ≤ sub

namespace KeyScan

variable (scan : KeyScan Text State Error) (path : List Text)
  (inner : Text → State → Except Error State)

/-- `IF $DATA(...) DO`. -/
def ifData (sub : Text) (state : State) : Except Error State :=
  if decide (sub ∈ subscripts (scan.paths state) path) then inner sub state else .ok state

/-- `FOR  SET sub=$ORDER(...) QUIT:...  DO`. -/
def forOrder (stop : Text → Bool) (start : Text) : State → Except Error State :=
  forEach scan.exhausted
    (fun cursor state => (next (scan.paths state) path cursor).filter (!stop ·))
    inner scan.fuel start

/-- The loop over one key. -/
def keyLoop [OrderBot Text] : KeyLoop Text → State → Except Error State
  | .unfixed => scan.forOrder path inner (fun _ => false) ⊥
  | .equals none => .ok
  | .equals (some value) => scan.ifData path inner value
  | .isIn values => forList (scan.ifData path inner) (values.reduceOption.toFinset.sort (· ≤ ·))
  | .lessThan none => .ok
  | .lessThan (some bound) =>
    scan.forOrder path (scan.ifData path inner) (fun sub => !decide (sub < bound)) ⊥
  | .lessThanOrEquals none => .ok
  | .lessThanOrEquals (some bound) =>
    scan.forOrder path (scan.ifData path inner) (fun sub => decide (bound < sub)) ⊥
  | .greaterThan none => .ok
  | .greaterThan (some bound) =>
    scan.forOrder path (scan.ifData path inner) (fun _ => false) bound
  | .greaterThanOrEquals none => .ok
  -- The block runs once for the bound itself before the loop starts behind it.
  | .greaterThanOrEquals (some bound) => fun state =>
    match scan.ifData path inner bound state with
    | .error error => .error error
    | .ok after => scan.forOrder path (scan.ifData path inner) (fun _ => false) bound after

/-- The nested loops over all keys. -/
def scanKeys [OrderBot Text] (scan : KeyScan Text State Error) :
    List (KeyLoop Text) → List Text → State → Except Error State
  | [], path => scan.body path
  | loop :: rest, path => scan.keyLoop path (fun sub => scanKeys scan rest (path ++ [sub])) loop

end KeyScan

/-! ## What the loops handle -/

/-- The loops of the scan run through the paths of the contract with enough fuel. -/
structure KeyScan.Follows (scan : KeyScan Text State Error) (contract : Contract Text State Error) :
    Prop where
  paths : contract.paths = scan.paths
  exhausted : contract.exhausted = scan.exhausted
  enough : contract.reach.card < scan.fuel

/-- The paths behind `path` that are admitted by the loops. -/
def Admitted [OrderBot Text] (loops : List (KeyLoop Text)) (path : List Text) : Set (List Text) :=
  {full | ∃ subs, List.Forall₂ KeyLoop.Admits loops subs ∧ full = path ++ subs}

theorem admitted_cons [OrderBot Text] (loop : KeyLoop Text) (rest : List (KeyLoop Text))
    (path : List Text) :
    Admitted (loop :: rest) path =
      {full | ∃ sub, loop.Admits sub ∧ full ∈ Admitted rest (path ++ [sub])} := by
  ext full
  constructor
  · rintro ⟨_, admitted, rfl⟩
    obtain ⟨sub, subs, admittedHead, admittedRest, rfl⟩ := List.forall₂_cons_left_iff.mp admitted
    exact ⟨sub, admittedHead, subs, admittedRest, by simp⟩
  · rintro ⟨sub, admitted, subs, admittedRest, rfl⟩
    exact ⟨sub :: subs, .cons admitted admittedRest, by simp⟩

section Rules

variable {scan : KeyScan Text State Error} {contract : Contract Text State Error}
  {path : List Text} {inner : Text → State → Except Error State} {region : Text → Set (List Text)}
  (follows : scan.Follows contract)
include follows

theorem handles_ifData {sub : Text}
    (handles : contract.HandlesAt (path ++ [sub]) (region sub) (inner sub))
    (under : region sub ⊆ Under (path ++ [sub])) :
    contract.Handles (region sub) (scan.ifData path inner sub) := by
  refine handles.ifPresent under (fun state => decide (sub ∈ subscripts (scan.paths state) path)) ?_
  intro state
  rw [decide_eq_true_iff, mem_subscripts_iff, follows.paths]

theorem handles_forOrder {stop : Text → Bool} {start : Text}
    (handles : ∀ sub, start < sub → stop sub = false →
      contract.HandlesAt (path ++ [sub]) (region sub) (inner sub))
    (under : ∀ sub, region sub ⊆ Under (path ++ [sub]))
    (stays : ∀ first second, stop first = true → first ≤ second → stop second = true) :
    contract.Handles {full | ∃ sub, (start < sub ∧ stop sub = false) ∧ full ∈ region sub}
      (scan.forOrder path inner stop start) := by
  have enough : ((subscripts contract.reach path).filter (start < ·)).card < scan.fuel :=
    (Finset.card_filter_le _ _).trans_lt
      ((card_subscripts_le contract.reach path).trans_lt follows.enough)
  have rule := handles_forEach scan.fuel start handles under stays enough
  rwa [follows.paths, follows.exhausted] at rule

variable [OrderBot Text]

/-- One loop handles the targets under the subscripts that it admits. -/
theorem handles_keyLoop (loop : KeyLoop Text) (handles : ∀ sub, loop.Admits sub →
      contract.HandlesAt (path ++ [sub]) (region sub) (inner sub))
    (under : ∀ sub, region sub ⊆ Under (path ++ [sub])) :
    contract.Handles {full | ∃ sub, loop.Admits sub ∧ full ∈ region sub}
      (scan.keyLoop path inner loop) := by
  have visit : ∀ sub, loop.Admits sub → contract.Handles (region sub)
      (scan.ifData path inner sub) :=
    fun sub admitted => handles_ifData follows (handles sub admitted) (under sub)
  have visitAt : ∀ sub, loop.Admits sub →
      contract.HandlesAt (path ++ [sub]) (region sub) (scan.ifData path inner sub) :=
    fun sub admitted => (visit sub admitted).handlesAt _
  cases loop with
  | unfixed =>
    refine (handles_forOrder follows (fun sub above _ => handles sub above) under ?_).of_eq ?_
    · simp
    · simp [Admits]
  | equals value =>
    cases value with
    | none => exact handles_ok.of_eq (by simp [Admits])
    | some value => exact (visit value rfl).of_eq (by simp [Admits])
  | isIn values =>
    have admitted : ∀ sub ∈ values.reduceOption.toFinset.sort (· ≤ ·),
        (isIn values).Admits sub := by
      simp [Admits, List.reduceOption_mem_iff]
    refine (handles_forList (fun sub member => visit sub (admitted sub member)) under
      (Finset.sort_nodup _ _)).of_eq ?_
    simp [Admits, List.reduceOption_mem_iff]
  | lessThan bound | lessThanOrEquals bound =>
    cases bound with
    | none => exact handles_ok.of_eq (by simp [Admits])
    | some bound =>
      refine (handles_forOrder follows (fun sub above below => visitAt sub ?_) under ?_).of_eq ?_
      · exact ⟨above, bound, rfl, by simpa using below⟩
      · simpa using fun first second stops later => by grind
      · simp [Admits]
  | greaterThan bound =>
    cases bound with
    | none => exact handles_ok.of_eq (by simp [Admits])
    | some bound =>
      refine (handles_forOrder follows (fun sub above _ => visitAt sub ?_) under ?_).of_eq ?_
      · exact ⟨bound, rfl, above⟩
      · simp
      · simp [Admits]
  | greaterThanOrEquals bound =>
    cases bound with
    | none => exact handles_ok.of_eq (by simp [Admits])
    | some bound =>
      refine ((visit bound ⟨bound, rfl, le_rfl⟩).seq (handles_forOrder follows
        (fun sub above _ => visitAt sub ⟨bound, rfl, above.le⟩) under ?_) ?_).of_eq ?_
      · simp
      · rw [Set.disjoint_left]
        rintro full inBound ⟨sub, ⟨later, _⟩, inSub⟩
        exact later.ne (eq_of_starts_append_singleton (under _ inBound) (under _ inSub))
      · ext full
        simp [Admits, le_iff_eq_or_lt]

/-- The outermost loop, given what the loops inside of it handle. -/
theorem handles_scanKeys_cons
    {loop : KeyLoop Text} {rest : List (KeyLoop Text)} (inside : ∀ sub, loop.Admits sub →
      contract.HandlesAt (path ++ [sub]) (Admitted rest (path ++ [sub]))
        (scan.scanKeys rest (path ++ [sub]))) :
    contract.Handles (Admitted (loop :: rest) path) (scan.scanKeys (loop :: rest) path) := by
  rw [admitted_cons]
  refine handles_keyLoop follows loop inside ?_
  rintro sub full ⟨subs, _, rfl⟩
  exact ⟨subs, rfl⟩

theorem handlesAt_scanKeys (loops : List (KeyLoop Text)) (path : List Text)
    (handles : ∀ full ∈ Admitted loops path, contract.HandlesAt full {full} (scan.body full)) :
    contract.HandlesAt path (Admitted loops path) (scan.scanKeys loops path) := by
  induction loops generalizing path with
  | nil =>
    have only : Admitted ([] : List (KeyLoop Text)) path = {path} := by
      simp [Admitted]
    rw [only] at handles ⊢
    exact handles path rfl
  | cons loop rest ih =>
    refine (handles_scanKeys_cons follows fun sub admitted => ?_).handlesAt _
    apply ih
    intro full inRest
    apply handles
    rw [admitted_cons]
    exact ⟨sub, admitted, inRest⟩

/-- The nested loops handle the targets whose subscripts are admitted by their loops. -/
theorem handles_scanKeys {loops : List (KeyLoop Text)} (nonempty : loops ≠ [])
    (handles : ∀ full ∈ Admitted loops [], contract.HandlesAt full {full} (scan.body full)) :
    contract.Handles (Admitted loops []) (scan.scanKeys loops []) := by
  cases loops with
  | nil => exact absurd rfl nonempty
  | cons loop rest =>
    refine handles_scanKeys_cons follows fun sub admitted => ?_
    apply handlesAt_scanKeys follows
    intro full inRest
    apply handles
    rw [admitted_cons]
    exact ⟨sub, admitted, inRest⟩

end Rules

end Octo.Dml
