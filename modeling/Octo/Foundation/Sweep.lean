import Mathlib

/-!
# Sweeps over a set of paths that changes meanwhile

A sweep visits the paths of a finite set in nested loops, one loop for each component of a path.
Each loop goes from one component to the next larger one that is present at that moment, while what
is done at a path can remove this path and add others, ahead of the sweep or behind it.

A `Contract` names the paths that a sweep has to handle and an invariant over those it has handled.
`Contract.Handles` is a triple for a part of the sweep: it runs on the paths of a region, handles
every target there, handles nothing twice, and does not run out of fuel. The rules below compose
parts with disjoint regions; the loop rule needs as much fuel as there are components that can ever
be present.
-/
namespace Sweep

open Finset Disjoint Or

variable {Sub State Error : Type}

variable {path subs : List Sub} {sub cursor : Sub} {body : Sub → State → Except Error State}
    {state : State} {paths : Finset (List Sub)} {full : List Sub}

theorem starts_append_singleton_iff :
    path ++ [sub] <+: full ↔ path <+: full ∧ full[path.length]? = some sub := by
  constructor
  · rintro ⟨rest, rfl⟩
    constructor
    · exact ⟨sub :: rest, by simp⟩
    · simp
  · rintro ⟨⟨rest, rfl⟩, found⟩
    cases rest with
    | nil => simp at found
    | cons head tail =>
      obtain rfl : head = sub := by simpa using found
      exact ⟨tail, by simp⟩

/-- Paths that differ in the next component are different. -/
theorem eq_of_starts_append_singleton {first second : Sub}
    (throughFirst : path ++ [first] <+: full) (throughSecond : path ++ [second] <+: full) :
    first = second := by
  rw [starts_append_singleton_iff] at throughFirst throughSecond
  exact Option.some.inj (throughFirst.2.symm.trans throughSecond.2)

/-- Runs the body on the components of a list, one after the other. -/
def forList (body : Sub → State → Except Error State) : List Sub → State → Except Error State
  | [], state => .ok state
  | sub :: rest, state =>
    match body sub state with
    | .error error => .error error
    | .ok after => forList body rest after

theorem forList_cons_eq_ok {rest : List Sub} {final : State}
    (passed : forList body (sub :: rest) state = .ok final) :
    ∃ middle, body sub state = .ok middle ∧ forList body rest middle = .ok final := by
  rw [forList] at passed
  split at passed
  case h_1 => cases passed
  case h_2 middle step => exact ⟨middle, step, passed⟩

/-- What holds before and is kept by each step holds after all steps. -/
theorem forList_induction {final : State} (motive : State → Prop)
    (step : ∀ sub ∈ subs, ∀ before after, motive before → body sub before = .ok after →
      motive after)
    (start : motive state) (passed : forList body subs state = .ok final) : motive final := by
  induction subs generalizing state with
  | nil =>
    cases passed
    exact start
  | cons head rest ih =>
    obtain ⟨middle, first, remaining⟩ := forList_cons_eq_ok passed
    refine ih (List.forall_mem_of_forall_mem_cons step) ?_ remaining
    exact step head (List.mem_cons_self ..) state middle start first

/-- An error is the error of one of the steps. -/
theorem exists_of_forList_eq_error {error : Error}
    (failed : forList body subs state = .error error) :
    ∃ sub ∈ subs, ∃ before, body sub before = .error error := by
  induction subs generalizing state with
  | nil => cases failed
  | cons head rest ih =>
    rw [forList] at failed
    split at failed
    case h_1 stepError step =>
      cases failed
      exact ⟨head, List.mem_cons_self .., state, step⟩
    case h_2 middle _ =>
      obtain ⟨sub, member, before, step⟩ := ih failed
      exact ⟨sub, List.mem_cons_of_mem _ member, before, step⟩

/-- Steps that each add to a set of keys what they cover. The invariant may depend on the steps that
are still to come. -/
theorem forList_accumulates {Key : Type} {exhausted : Error}
    (Inv : List Sub → Finset Key → State → Prop) (Covers : Sub → Set Key)
    (step : ∀ head rest done state, Inv (head :: rest) done state →
      body head state ≠ .error exhausted ∧ ∀ after, body head state = .ok after →
      ∃ done', done ⊆ done' ∧ Inv rest done' after ∧ Covers head ⊆ done')
    {done : Finset Key} (inv : Inv subs done state) :
    forList body subs state ≠ .error exhausted ∧
    ∀ final, forList body subs state = .ok final →
      ∃ done', done ⊆ done' ∧ Inv [] done' final ∧ ∀ sub ∈ subs, Covers sub ⊆ done' := by
  induction subs generalizing done state with
  | nil =>
    refine ⟨by simp [forList], fun final passed => ?_⟩
    cases passed
    exact ⟨done, subset_rfl, inv, by simp⟩
  | cons head rest ih =>
    obtain ⟨noFuelError, reaches⟩ := step head rest done state inv
    rw [forList]
    cases result : body head state with
    | error error =>
      refine ⟨?_, by simp⟩
      rintro ⟨⟩
      exact noFuelError result
    | ok middle =>
      obtain ⟨done', grows, inv', covers⟩ := reaches middle result
      obtain ⟨noFuelError', reaches'⟩ := ih inv'
      refine ⟨noFuelError', fun final passed => ?_⟩
      obtain ⟨done'', grows', inv'', covers'⟩ := reaches' final passed
      refine ⟨done'', grows.trans grows', inv'', List.forall_mem_cons.mpr ⟨?_, covers'⟩⟩
      exact covers.trans (by simpa using grows')

/-! ## What a part of a sweep handles -/

/-- What a sweep has to do, with the invariant that it keeps on the way. -/
structure Contract (Sub State Error : Type) where
  /-- The paths that are present in a state. -/
  paths : State → Finset (List Sub)
  /-- The paths that can ever be present. -/
  reach : Finset (List Sub)
  /-- The paths that have to be handled. -/
  targets : Set (List Sub)
  /-- The invariant over the paths that were handled so far. -/
  Inv : Set (List Sub) → State → Prop
  /-- The error of a loop without fuel. -/
  exhausted : Error
  paths_subset : ∀ {handled state}, Inv handled state → paths state ⊆ reach
  present : ∀ {handled state}, Inv handled state → ∀ path ∈ targets, path ∉ handled →
    path ∈ paths state

namespace Contract

variable (contract : Contract Sub State Error)

/-- The result of a part of the sweep that started with `handled`. -/
def Reaches (region handled : Set (List Sub)) : Except Error State → Prop
  | .error error => error ≠ contract.exhausted
  | .ok state => ∃ handled', contract.Inv handled' state ∧ handled ⊆ handled' ∧
      handled' ⊆ handled ∪ region ∧ contract.targets ∩ region ⊆ handled'

/-- A part of the sweep that handles the targets of a region, none of them twice. -/
def Handles (region : Set (List Sub)) (run : State → Except Error State) : Prop :=
  ∀ handled state, contract.Inv handled state → Disjoint handled region →
    contract.Reaches region handled (run state)

/-- The same for a part that is started only while there is a path under `path`. -/
def HandlesAt (path : List Sub) (region : Set (List Sub)) (run : State → Except Error State) :
    Prop :=
  ∀ handled state, contract.Inv handled state → Disjoint handled region →
    (∃ full ∈ contract.paths state, path <+: full) → contract.Reaches region handled (run state)

/-- The paths that start with `path`. -/
def Under (path : List Sub) : Set (List Sub) :=
  {full | path <+: full}

variable {contract}

variable {region handled : Set (List Sub)} {run : State → Except Error State}

/-- Nothing has to be done where no target is left. -/
theorem reaches_ok (inv : contract.Inv handled state)
    (noTarget : ∀ path ∈ contract.targets, path ∈ region → path ∈ handled) :
    contract.Reaches region handled (.ok state) :=
  ⟨handled, inv, subset_rfl, Set.subset_union_left, fun path member =>
    noTarget path member.1 member.2⟩

theorem handles_ok : contract.Handles (∅ : Set (List Sub)) Except.ok :=
  fun _ _ inv _ => reaches_ok inv fun _ _ member => member.elim

/-- A target that is not present has been handled. -/
theorem mem_handled_of_absent (inv : contract.Inv handled state)
    (target : path ∈ contract.targets) (absent : path ∉ contract.paths state) : path ∈ handled := by
  by_contra notHandled
  exact absent (contract.present inv path target notHandled)

variable {first second : Set (List Sub)} {result : Except Error State}

/-- Two parts with disjoint regions, the second on what the first has left. -/
theorem Reaches.trans {middle : State} (start : contract.Reaches first handled (.ok middle))
    (rest : ∀ handled', contract.Inv handled' middle → handled' ⊆ handled ∪ first →
      contract.Reaches second handled' result) :
    contract.Reaches (first ∪ second) handled result := by
  obtain ⟨handled', inv, grows, within, covers⟩ := start
  have finish := rest handled' inv within
  cases result with
  | error error => exact finish
  | ok state =>
    obtain ⟨handled'', inv', grows', within', covers'⟩ := finish
    refine ⟨handled'', inv', grows.trans grows', ?_, ?_⟩
    · intro path member
      rcases within' member with earlier | inSecond
      · rcases within earlier with before | inFirst
        · exact inl before
        · exact inr (inl inFirst)
      · exact inr (inr inSecond)
    · rintro path ⟨target, inFirst | inSecond⟩
      · exact grows' (covers ⟨target, inFirst⟩)
      · exact covers' ⟨target, inSecond⟩

/-- A region can be enlarged where there are no targets. -/
theorem Reaches.widen {larger : Set (List Sub)} (reaches : contract.Reaches region handled result)
    (subset : region ⊆ larger)
    (noMore : contract.targets ∩ larger ⊆ region) : contract.Reaches larger handled result := by
  cases result with
  | error error => exact reaches
  | ok state =>
    obtain ⟨handled', inv, grows, within, covers⟩ := reaches
    refine ⟨handled', inv, grows, within.trans (Set.union_subset_union_right _ subset), ?_⟩
    rintro path ⟨target, inLarger⟩
    exact covers ⟨target, noMore ⟨target, inLarger⟩⟩

theorem Handles.of_eq {other : Set (List Sub)} (handles : contract.Handles region run)
    (same : region = other) : contract.Handles other run :=
  same ▸ handles

/-- Running one part after another. -/
theorem Handles.seq {continuation : State → Except Error State}
    (handlesFirst : contract.Handles first run)
    (handlesSecond : contract.Handles second continuation) (disjoint : Disjoint first second) :
    contract.Handles (first ∪ second) fun state =>
      match run state with
      | .error error => .error error
      | .ok after => continuation after := by
  intro handled state inv apart
  have start := handlesFirst handled state inv (apart.mono_right Set.subset_union_left)
  dsimp only
  split
  case h_1 error failed =>
    rw [failed] at start
    exact start
  case h_2 middle passed =>
    rw [passed] at start
    refine start.trans fun handled' inv' within => handlesSecond handled' middle inv' ?_
    refine mono_left within (sup_left ?_ disjoint)
    exact apart.mono_right Set.subset_union_right

theorem Handles.handlesAt (handles : contract.Handles region run) (path : List Sub) :
    contract.HandlesAt path region run :=
  fun handled state inv apart _ => handles handled state inv apart

/-- A part can be skipped while no path of its region is present. -/
theorem HandlesAt.ifPresent (handles : contract.HandlesAt path region run)
    (under : region ⊆ Under path) (isPresent : State → Bool)
    (exact : ∀ state, isPresent state = true ↔ ∃ full ∈ contract.paths state, path <+: full) :
    contract.Handles region fun state => if isPresent state then run state else .ok state := by
  intro handled state inv apart
  dsimp only
  split
  case isTrue found => exact handles handled state inv apart ((exact state).mp found)
  case isFalse absent =>
    refine reaches_ok inv fun full target inRegion => mem_handled_of_absent inv target ?_
    intro isThere
    exact absent ((exact state).mpr ⟨full, isThere, under inRegion⟩)

/-- The loop over the components of a list without repetitions. -/
theorem handles_forList {region : Sub → Set (List Sub)}
    (handles : ∀ sub ∈ subs, contract.Handles (region sub) (body sub))
    (under : ∀ sub, region sub ⊆ Under (path ++ [sub])) (nodup : subs.Nodup) :
    contract.Handles {full | ∃ sub ∈ subs, full ∈ region sub} (forList body subs) := by
  induction subs with
  | nil =>
    intro handled state inv _
    exact reaches_ok inv (by simp)
  | cons head rest ih =>
    obtain ⟨headNotInRest, restNodup⟩ := List.nodup_cons.mp nodup
    have handlesHead := handles head (List.mem_cons_self ..)
    have handlesRest := ih (List.forall_mem_of_forall_mem_cons handles) restNodup
    refine (handlesHead.seq handlesRest ?_).of_eq ?_
    · rw [Set.disjoint_left]
      rintro full inHead ⟨sub, inRest, inSub⟩
      obtain rfl := eq_of_starts_append_singleton (under _ inHead) (under _ inSub)
      exact headNotInRest inRest
    · ext full
      simp

end Contract

/-! ## The components that are present -/

variable [LinearOrder Sub]

/-- The components that continue `path` towards a path of the set. -/
def subscripts (paths : Finset (List Sub)) (path : List Sub) : Finset Sub :=
  paths.biUnion fun full => if path <+: full then (full[path.length]?).toFinset else ∅

@[simp]
theorem mem_subscripts_iff :
    sub ∈ subscripts paths path ↔ ∃ full ∈ paths, path ++ [sub] <+: full := by
  simp only [subscripts, mem_biUnion, starts_append_singleton_iff]
  constructor
  · rintro ⟨full, member, found⟩
    split at found
    case isTrue starts => exact ⟨full, member, starts, by simpa using found⟩
    case isFalse => simp at found
  · rintro ⟨full, member, starts, found⟩
    exact ⟨full, member, by simp [starts, found]⟩

theorem subscripts_mono {smaller larger : Finset (List Sub)} (subset : smaller ⊆ larger)
    (path : List Sub) : subscripts smaller path ⊆ subscripts larger path := by
  intro sub member
  rw [mem_subscripts_iff] at member ⊢
  obtain ⟨full, present, starts⟩ := member
  exact ⟨full, subset present, starts⟩

/-- The components under one path are at most as many as the paths. -/
theorem card_subscripts_le (paths : Finset (List Sub)) (path : List Sub) :
    (subscripts paths path).card ≤ paths.card := by
  refine (card_biUnion_le_card_mul _ _ 1 ?_).trans (by simp)
  intro full _
  split
  · cases full[path.length]? <;> simp
  · simp

theorem card_filter_lt_of_mem {subs : Finset Sub} (member : sub ∈ subs) (follows : cursor < sub) :
    (subs.filter (sub < ·)).card < (subs.filter (cursor < ·)).card := by
  apply card_lt_card
  refine Finset.ssubset_iff_subset_ne.mpr ⟨fun other above => ?_, fun same => ?_⟩
  · rw [Finset.mem_filter] at above ⊢
    exact ⟨above.1, follows.trans above.2⟩
  · have inLarger : sub ∈ subs.filter (cursor < ·) := mem_filter.mpr ⟨member, follows⟩
    rw [← same] at inLarger
    exact lt_irrefl sub (mem_filter.mp inLarger).2

/-- The least element of a finite set. -/
def least (candidates : Finset Sub) : Option Sub :=
  if nonempty : candidates.Nonempty then some (candidates.min' nonempty) else none

/-- The component that follows `cursor` under `path`. -/
def next (paths : Finset (List Sub)) (path : List Sub) (cursor : Sub) : Option Sub :=
  least ((subscripts paths path).filter (cursor < ·))

theorem next_eq_none (ends : next paths path cursor = none)
    (present : sub ∈ subscripts paths path) : ¬cursor < sub := by
  intro follows
  have nonempty : ((subscripts paths path).filter (cursor < ·)).Nonempty :=
    ⟨sub, mem_filter.mpr ⟨present, follows⟩⟩
  simp [next, least, nonempty] at ends

theorem next_eq_some (found : next paths path cursor = some sub) :
    sub ∈ subscripts paths path ∧ cursor < sub ∧
      ∀ other ∈ subscripts paths path, cursor < other → sub ≤ other := by
  unfold next least at found
  split at found
  case isFalse => cases found
  case isTrue nonempty =>
    obtain rfl := Option.some.inj found
    have member := min'_mem _ nonempty
    rw [mem_filter] at member
    refine ⟨member.1, member.2, fun other present follows => ?_⟩
    exact min'_le _ _ (mem_filter.mpr ⟨present, follows⟩)

/-- A loop over the components that `following` gives one after the other. -/
def forEach (exhausted : Error) (following : Sub → State → Option Sub)
    (body : Sub → State → Except Error State) : Nat → Sub → State → Except Error State
  | 0, _, _ => .error exhausted
  | fuel + 1, cursor, state =>
    match following cursor state with
    | none => .ok state
    | some sub =>
      match body sub state with
      | .error error => .error error
      | .ok after => forEach exhausted following body fuel sub after

/-- The loop over the components that are present, from a cursor up to the first one that stops it.
The fuel has to exceed the number of components that can ever be met. -/
theorem Contract.handles_forEach {contract : Contract Sub State Error}
    {region : Sub → Set (List Sub)} {stop : Sub → Bool} (fuel : Nat) (cursor : Sub)
    (handles : ∀ sub, cursor < sub → stop sub = false →
      contract.HandlesAt (path ++ [sub]) (region sub) (body sub))
    (under : ∀ sub, region sub ⊆ Contract.Under (path ++ [sub]))
    (stays : ∀ first second, stop first = true → first ≤ second → stop second = true)
    (enough : ((subscripts contract.reach path).filter (cursor < ·)).card < fuel) :
    contract.Handles {full | ∃ sub, (cursor < sub ∧ stop sub = false) ∧ full ∈ region sub}
      (forEach contract.exhausted
        (fun cursor state => (next (contract.paths state) path cursor).filter (!stop ·))
        body fuel cursor) := by
  induction fuel generalizing cursor with
  | zero => simp at enough
  | succ fuel ih =>
    intro handled state inv apart
    unfold forEach
    -- A target that is still to be handled is present, so that `next` does not pass it.
    have ahead : ∀ full ∈ contract.targets, ∀ sub, cursor < sub → stop sub = false →
        full ∈ region sub → sub ∈ subscripts (contract.paths state) path := by
      intro full target sub follows continues inRegion
      have notHandled : full ∉ handled := fun isHandled =>
        Set.disjoint_left.mp apart isHandled ⟨sub, ⟨follows, continues⟩, inRegion⟩
      exact mem_subscripts_iff.mpr
        ⟨full, contract.present inv full target notHandled, under _ inRegion⟩
    split
    case h_1 ends =>
      refine reaches_ok inv fun full target inRegion => ?_
      obtain ⟨sub, ⟨follows, continues⟩, inSub⟩ := inRegion
      have isPresent := ahead full target sub follows continues inSub
      cases found : next (contract.paths state) path cursor with
      | none => exact absurd follows (next_eq_none found isPresent)
      | some first =>
        have stops : stop first = true := by simpa [found] using ends
        have reached := (next_eq_some found).2.2 sub isPresent follows
        exact absurd (stays first sub stops reached) (by simp [continues])
    case h_2 sub found =>
      obtain ⟨found, continues⟩ : next (contract.paths state) path cursor = some sub ∧
          stop sub = false := by
        simpa using found
      obtain ⟨isPresent, follows, isLeast⟩ := next_eq_some found
      have apartHere : Disjoint handled (region sub) := by
        refine apart.mono_right fun full inRegion => ?_
        exact ⟨sub, ⟨follows, continues⟩, inRegion⟩
      have here := handles sub follows continues handled state inv apartHere
        (mem_subscripts_iff.mp isPresent)
      have smaller : ((subscripts contract.reach path).filter (sub < ·)).card < fuel := by
        refine lt_of_lt_of_le (card_filter_lt_of_mem ?_ follows) (Nat.le_of_lt_succ enough)
        exact subscripts_mono (contract.paths_subset inv) path isPresent
      cases passed : body sub state with
      | error error =>
        rw [passed] at here
        exact here
      | ok middle =>
        rw [passed] at here
        have both := here.trans fun handled' inv' within =>
          ih sub (fun other later => handles other (follows.trans later)) smaller handled' middle
            inv' (by
            refine mono_left within (sup_left ?_ ?_)
            · refine apart.mono_right ?_
              rintro full ⟨other, ⟨later, continuesOther⟩, inOther⟩
              exact ⟨other, ⟨follows.trans later, continuesOther⟩, inOther⟩
            · rw [Set.disjoint_left]
              rintro full inSub ⟨other, ⟨later, _⟩, inOther⟩
              exact later.ne
                (eq_of_starts_append_singleton (under _ inSub) (under _ inOther)))
        refine both.widen ?_ ?_
        · rintro full (inSub | ⟨other, ⟨later, continuesOther⟩, inOther⟩)
          · exact ⟨sub, ⟨follows, continues⟩, inSub⟩
          · exact ⟨other, ⟨follows.trans later, continuesOther⟩, inOther⟩
        · rintro full ⟨target, other, ⟨followsOther, continuesOther⟩, inOther⟩
          have reached :=
            isLeast other (ahead full target other followsOther continuesOther inOther)
              followsOther
          rcases reached.eq_or_lt with rfl | later
          · exact inl inOther
          · exact inr ⟨other, ⟨later, continuesOther⟩, inOther⟩

end Sweep
