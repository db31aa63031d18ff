import Octo.Physical.TableJoin

/-!
# Execution of the join loops

What a run of the emitted code does to the state: which combinations of rows reach the body, in
which order, and which rows are recorded as matched. `growTuples` and `growMatches` describe the
first half of every join, `secondHalfTuples` the second halves. The step lemmas are about the code
of one table; `exec_tmplTablejoinNested` lifts them to all tables on the right by induction on the
FROM list.
-/
namespace Octo.Physical

open Kleene Relational List MCode JoinTable JoinType Nat

variable {Key Result : Type}
variable {nulls : List Nat} {index : Nat} {tuple : Tuple Key}

/-! ## Combinations that reach the body -/

/-- The ON condition of a table holds for a combination and a row. -/
def JoinTable.passes (table : JoinTable Key) (tuple : Tuple Key) (key : Key) : Bool :=
  match table.on with
  | none => true
  | some on => decide (on (tuple ++ [some key]) = .true)

/-- The rows that are scanned for a combination and satisfy the ON condition. -/
def JoinTable.matchedKeys (table : JoinTable Key) (tuple : Tuple Key) : List Key :=
  (table.scan false tuple).filter fun key => table.passes tuple key

theorem JoinTable.scan_secondHalf (table : JoinTable Key) (tuple : Tuple Key) :
    table.scan true tuple = table.rows := by
  unfold scan
  split <;> rfl

/-- The combinations that grow from one combination through the first halves of the joins. -/
def growTuples (tuple : Tuple Key) : List (JoinTable Key) → List (Tuple Key)
  | [] => [tuple]
  | table :: rest =>
    if table.joinType.isLeftInFirstHalf && (table.matchedKeys tuple).isEmpty then
      growTuples (tuple ++ [none]) rest
    else (table.matchedKeys tuple).flatMap fun key => growTuples (tuple ++ [some key]) rest

/-- The rows that are recorded as matched on the way. -/
def growMatches (index : Nat) (tuple : Tuple Key) : List (JoinTable Key) → List (Nat × Key)
  | [] => []
  | table :: rest =>
    if table.joinType.isLeftInFirstHalf && (table.matchedKeys tuple).isEmpty then
      growMatches (index + 1) (tuple ++ [none]) rest
    else
      (table.matchedKeys tuple).flatMap fun key =>
        (if table.joinType.hasSecondHalf then [(index, key)] else []) ++
          growMatches (index + 1) (tuple ++ [some key]) rest

/-- Only rows of the tables from `index` on are recorded. -/
theorem le_of_mem_growMatches {tables : List (JoinTable Key)} {entry : Nat × Key}
    (member : entry ∈ growMatches index tuple tables) : index ≤ entry.1 := by
  induction tables generalizing index tuple with
  | nil => cases member
  | cons table rest ih =>
    rw [growMatches] at member
    split at member
    · exact le_of_succ_le (ih member)
    · obtain ⟨key, _, recorded⟩ := mem_flatMap.mp member
      rcases mem_append.mp recorded with here | later
      · split at here
        · rw [mem_singleton.mp here]
        · cases here
      · exact le_of_succ_le (ih later)

/-! ## Effects -/

/-- The run from `before` to `after` leaves the variables of the tables before `index` alone,
gives the listed combinations to the body and records the listed rows. -/
structure Effect (step : Tuple Key → Result → Result) (index : Nat)
    (before after : MState Key Result) (tuples : List (Tuple Key)) (recorded : List (Nat × Key)) :
    Prop where
  keys : ∀ table < index, after.keys table = before.keys table
  flags : ∀ table < index, after.flags table = before.flags table
  matched : after.matched = before.matched ++ recorded
  result : after.result = tuples.foldl (fun result tuple => step tuple result) before.result

namespace Effect

variable {step : Tuple Key → Result → Result} {first second third : MState Key Result}
  {tuples moreTuples : List (Tuple Key)} {recorded moreRecorded : List (Nat × Key)}
variable (state : MState Key Result)

theorem refl : Effect step index state state [] [] :=
  ⟨fun _ _ => rfl, fun _ _ => rfl, by simp, rfl⟩

theorem trans (firstEffect : Effect step index first second tuples recorded)
    (secondEffect : Effect step index second third moreTuples moreRecorded) :
    Effect step index first third (tuples ++ moreTuples) (recorded ++ moreRecorded) where
  keys table below := (secondEffect.keys table below).trans (firstEffect.keys table below)
  flags table below := (secondEffect.flags table below).trans (firstEffect.flags table below)
  matched := by rw [secondEffect.matched, firstEffect.matched, append_assoc]
  result := by rw [secondEffect.result, firstEffect.result, foldl_append]

/-- An effect of later tables is an effect of earlier ones. -/
theorem mono {later : Nat} (effect : Effect step later first second tuples recorded)
    (ordered : index ≤ later) : Effect step index first second tuples recorded :=
  ⟨fun table below => effect.keys table (by omega),
    fun table below => effect.flags table (by omega), effect.matched, effect.result⟩

theorem setKey (key : Option Key) :
    Effect step index state (state.setKey index key) [] [] where
  keys table below := if_neg (by omega)
  flags _ _ := rfl
  matched := (append_nil _).symm
  result := rfl

theorem putFlag (value : Bool) :
    Effect step index state (state.putFlag index value) [] [] where
  keys _ _ := rfl
  flags table below := if_neg (by omega)
  matched := (append_nil _).symm
  result := rfl

variable {key : Key}

theorem putMatched {state : MState Key Result} (current : state.keys index = some key) :
    Effect step index state (state.putMatched index) [] [(index, key)] where
  keys _ _ := rfl
  flags _ _ := rfl
  matched := by simp [MState.putMatched, current]
  result := rfl

/-- Expressions over the tables before `index` read the same rows afterwards. -/
theorem read (effect : Effect step index first second tuples recorded) (nulls : List Nat) :
    second.read nulls index = first.read nulls index := by
  refine map_congr_left fun table member => ?_
  rw [effect.keys table (mem_range.mp member)]

end Effect

section Read

variable (state : MState Key Result) (nulls : List Nat) (index : Nat)

/-- Reading one more table. -/
theorem read_succ :
    state.read nulls (index + 1) =
      state.read nulls index ++ [if index ∈ nulls then none else state.keys index] := by
  simp [MState.read, range_succ]

theorem read_next {state : MState Key Result} {nulls : List Nat} {index : Nat} {key : Key}
    (notNull : index ∉ nulls) (read : state.read nulls index = tuple)
    (chosen : state.keys index = some key) :
    state.read nulls (index + 1) = tuple ++ [some key] := by
  rw [read_succ, read, if_neg notNull, chosen]

/-- Treating the table at `index` as NULL changes nothing for the tables before it. -/
theorem read_cons_self :
    state.read (index :: nulls) index = state.read nulls index := by
  refine map_congr_left fun table member => ?_
  have below := mem_range.mp member
  simp [show table ≠ index by omega]

theorem read_setKey (key : Option Key) :
    (state.setKey index key).read nulls index = state.read nulls index := by
  have unchanged : Effect (fun _ result => result) index state (state.setKey index key) [] [] :=
    Effect.setKey state key
  exact unchanged.read nulls

theorem length_read : (state.read nulls index).length = index := by
  simp [MState.read]

end Read

/-! ## The code of one table -/

variable (canBeNull : Bool)

/-- A table that is treated as NULL in the first half of its join has no loops. -/
theorem tmplTablejoinLoops_treatedAsNull (inner : MCode Key) (isNull : index ∈ nulls)
    (isLeft : table.joinType.isLeftInFirstHalf = true) :
    tmplTablejoinLoops canBeNull index nulls false table inner = inner := by
  cases joined : table.joinType <;> rw [joined] at isLeft <;> cases isLeft <;>
    simp [tmplTablejoinLoops, joined, isNull, isOuterJoin]

section OneTable

variable [DecidableEq Key] {step : Tuple Key → Result → Result}

variable {state : MState Key Result}

theorem exec_tmplTablejoinOnCondition (table : JoinTable Key) (body : MCode Key)
    (read : state.read nulls (index + 1) = tuple ++ [some key]) :
    (tmplTablejoinOnCondition table index nulls body).exec step state =
      if table.passes tuple key then body.exec step state else state := by
  cases condition : table.on with
  | none => simp [tmplTablejoinOnCondition, passes, condition]
  | some on => simp [tmplTablejoinOnCondition, passes, condition, exec, read]

/-- The loop over the rows of a table runs its body for every scanned row that passes a test. The
body may rely on a property of the recorded rows that its own records keep. -/
theorem exec_forKeys (step : Tuple Key → Result → Result) (index : Nat) (nulls : List Nat)
    (scan : Tuple Key → List Key) (body : MCode Key) (relies : List (Nat × Key) → Prop)
    (test : Key → Bool)
    (tuplesOf : Key → List (Tuple Key)) (recordedOf : Key → List (Nat × Key))
    (keeps : ∀ key matched, relies matched → relies (matched ++ recordedOf key))
    (runs : ∀ key, ∀ state : MState Key Result, relies state.matched →
      state.read nulls index = tuple → state.keys index = some key →
      Effect step index state (body.exec step state) (if test key then tuplesOf key else [])
        (if test key then recordedOf key else []))
    (initially : relies state.matched) (read : state.read nulls index = tuple) :
    Effect step index state ((forKeys index nulls scan body).exec step state)
      (((scan tuple).filter test).flatMap tuplesOf)
      (((scan tuple).filter test).flatMap recordedOf) := by
  simp only [exec, read]
  induction scan tuple generalizing state with
  | nil => exact Effect.refl state
  | cons key rest ih =>
    have chosen : Effect step index state (state.setKey index (some key)) [] [] :=
      Effect.setKey state (some key)
    have ran := chosen.trans (runs key _ initially ((chosen.read nulls).trans read) (if_pos rfl))
    have relied : relies (body.exec step (state.setKey index (some key))).matched := by
      rw [ran.matched]
      cases test key
      · simpa using initially
      · exact keeps key state.matched initially
    have both := ran.trans (ih relied ((ran.read nulls).trans read))
    cases tested : test key <;> simpa [tested] using both

/-- The loop sets the flag of its table when its body does so for one of the rows. -/
theorem flags_exec_forKeys (index : Nat) (nulls : List Nat) (scan : Tuple Key → List Key)
    (body : MCode Key) (tuple : Tuple Key) (sets : Key → Bool)
    (runs : ∀ key, ∀ state : MState Key Result, state.read nulls index = tuple →
      state.keys index = some key → (body.exec step state).read nulls index = tuple ∧
      (body.exec step state).flags index = (state.flags index || sets key))
    (read : state.read nulls index = tuple) :
    ((forKeys index nulls scan body).exec step state).flags index =
      (state.flags index || (scan tuple).any sets) := by
  simp only [exec, read]
  induction scan tuple generalizing state with
  | nil => simp
  | cons key rest ih =>
    obtain ⟨readAfter, flagAfter⟩ := runs key (state.setKey index (some key))
      ((read_setKey state nulls index (some key)).trans read) (if_pos rfl)
    rw [foldl_cons, ih readAfter, flagAfter, Bool.or_assoc]
    rfl

/-- After its loops a table kills its cursor, or leaves that to the caller. -/
theorem Effect.finish (skips : Bool) (state : MState Key Result) :
    Effect step index state
      ((if skips then skip else keyFinish index).exec step state) [] [] := by
  cases skips
  · exact Effect.setKey state none
  · exact Effect.refl state

theorem flags_exec_finish (skips : Bool) (index : Nat) (state : MState Key Result) :
    ((if skips then skip else keyFinish index).exec step state).flags =
      state.flags := by
  cases skips <;> rfl

/-- What the first half of a join does for a row that satisfies the ON condition. -/
def firstHalfBody (table : JoinTable Key) (index : Nat) (inner : MCode Key) : MCode Key :=
  .seq (if table.joinType.isLeftInFirstHalf then .setFlag index true else .skip)
    (.seq (if table.joinType.hasSecondHalf then .setMatched index else .skip) inner)

/-- In its first half every join checks the ON condition, sets its flag and records the row, in
this order, as far as its type asks for it. -/
theorem exec_tmplTablejoinLoops_firstHalf (notNull : index ∉ nulls)
    (table : JoinTable Key) (inner : MCode Key) (state : MState Key Result) :
    (tmplTablejoinLoops canBeNull index nulls false table inner).exec step state =
      (if canBeNull && table.joinType.isLeftInFirstHalf then skip
        else keyFinish index).exec step
        ((forKeys index nulls (table.scan false)
          (tmplTablejoinOnCondition table index nulls (firstHalfBody table index inner))).exec
            step state) := by
  cases joined : table.joinType <;> cases condition : table.on <;> cases canBeNull <;>
    simp [tmplTablejoinLoops, tmplTablejoinOnCondition, firstHalfBody, isOuterJoin,
      isLeftInFirstHalf, hasSecondHalf, joined, condition, notNull, exec]

/-- The code for the tables from `index` on gives to the body what grows from the combination that
it finds, and records the rows that it matches on the way. -/
def RunsNested (step : Tuple Key → Result → Result) (index : Nat) (nulls : List Nat)
    (code : MCode Key) (rest : List (JoinTable Key)) : Prop :=
  ∀ state : MState Key Result, Effect step index state (code.exec step state)
    (growTuples (state.read nulls index) rest) (growMatches index (state.read nulls index) rest)

variable {table : JoinTable Key} {inner : MCode Key} {rest : List (JoinTable Key)}
  (runsInner : RunsNested step (index + 1) nulls inner rest)
include runsInner

/-- The first half of a join for one scanned row. -/
theorem effect_firstHalfBody (read : state.read nulls (index + 1) = tuple ++ [some key])
    (current : state.keys index = some key) :
    Effect step index state ((firstHalfBody table index inner).exec step state)
      (growTuples (tuple ++ [some key]) rest)
      ((if table.joinType.hasSecondHalf then [(index, key)] else []) ++
        growMatches (index + 1) (tuple ++ [some key]) rest) := by
  have flagged : ∃ second : MState Key Result,
      second = (if table.joinType.isLeftInFirstHalf then setFlag index true
        else skip).exec step state ∧
      Effect step index state second [] [] ∧ second.keys = state.keys := by
    cases table.joinType.isLeftInFirstHalf
    · exact ⟨state, rfl, Effect.refl state, rfl⟩
    · exact ⟨state.putFlag index true, rfl, Effect.putFlag state true, rfl⟩
  obtain ⟨second, ranFlag, flagEffect, flagKeys⟩ := flagged
  have recorded : ∃ third : MState Key Result,
      third = (if table.joinType.hasSecondHalf then setMatched index
        else skip).exec step second ∧
      Effect step index second third []
        (if table.joinType.hasSecondHalf then [(index, key)] else []) ∧
      third.keys = second.keys := by
    cases table.joinType.hasSecondHalf
    · exact ⟨second, rfl, Effect.refl second, rfl⟩
    · exact ⟨second.putMatched index, rfl,
        Effect.putMatched ((congrFun flagKeys index).trans current), rfl⟩
  obtain ⟨third, ranRecord, recordEffect, recordKeys⟩ := recorded
  have readThird : third.read nulls (index + 1) = tuple ++ [some key] := by
    rw [← read, MState.read, MState.read, recordKeys, flagKeys]
  have innerEffect := (runsInner third).mono (le_succ index)
  rw [readThird] at innerEffect
  rw [firstHalfBody, exec, exec, ← ranFlag, ← ranRecord]
  exact (flagEffect.trans recordEffect).trans innerEffect

variable (state) (notNull : index ∉ nulls)
include notNull

/-- The loops of the first half of a join. -/
theorem effect_tmplTablejoinLoops_firstHalf (table : JoinTable Key) :
    Effect step index state
      ((tmplTablejoinLoops canBeNull index nulls false table inner).exec step state)
      ((table.matchedKeys (state.read nulls index)).flatMap fun key =>
        growTuples (state.read nulls index ++ [some key]) rest)
      ((table.matchedKeys (state.read nulls index)).flatMap fun key =>
        (if table.joinType.hasSecondHalf then [(index, key)] else []) ++
          growMatches (index + 1) (state.read nulls index ++ [some key]) rest) := by
  rw [exec_tmplTablejoinLoops_firstHalf canBeNull notNull]
  have looped := exec_forKeys step index nulls (table.scan false)
    (tmplTablejoinOnCondition table index nulls (firstHalfBody table index inner))
    (fun _ => True) (table.passes (state.read nulls index)) _ _ (fun _ _ _ => trivial)
    (by
      intro key current _ readCurrent chosen
      have readNext := read_next notNull readCurrent chosen
      rw [exec_tmplTablejoinOnCondition table _ readNext]
      cases table.passes (state.read nulls index) key
      · exact Effect.refl current
      · exact effect_firstHalfBody runsInner readNext chosen)
    trivial rfl
  have finished := looped.trans (Effect.finish (canBeNull && table.joinType.isLeftInFirstHalf) _)
  rw [append_nil, append_nil] at finished
  exact finished

/-- The flag of a LEFT JOIN tells whether a scanned row satisfied the ON condition. -/
theorem flags_tmplTablejoinLoops_firstHalf (isLeft : table.joinType.isLeftInFirstHalf = true) :
    ((tmplTablejoinLoops canBeNull index nulls false table inner).exec step state).flags index =
      (state.flags index || !(table.matchedKeys (state.read nulls index)).isEmpty) := by
  rw [exec_tmplTablejoinLoops_firstHalf canBeNull notNull, flags_exec_finish,
    flags_exec_forKeys index nulls (table.scan false) _ (state.read nulls index)
      (table.passes (state.read nulls index)) ?_ rfl, matchedKeys]
  · congr 1
    induction table.scan false (state.read nulls index) with
    | nil => rfl
    | cons key keys ih =>
      cases tested : table.passes (state.read nulls index) key <;> simp [tested, ih]
  · intro key current readCurrent chosen
    have readNext := read_next notNull readCurrent chosen
    rw [exec_tmplTablejoinOnCondition table _ readNext]
    cases table.passes (state.read nulls index) key
    · exact ⟨readCurrent, (Bool.or_false _).symm⟩
    · refine ⟨((effect_firstHalfBody runsInner readNext chosen).read nulls).trans readCurrent, ?_⟩
      -- The code for the tables to the right leaves this flag alone.
      simp only [firstHalfBody, isLeft, if_true, exec]
      rw [(runsInner _).flags index (lt_succ_self index)]
      cases table.joinType.hasSecondHalf <;> simp [exec, MState.putFlag, MState.putMatched]

/-- The second half of a join runs the code for the tables to the right for every row that is not
recorded as matched. -/
theorem effect_tmplTablejoinLoops_secondHalf (hasSecondHalf : table.joinType.hasSecondHalf = true) :
    Effect step index state
      ((tmplTablejoinLoops canBeNull index nulls true table inner).exec step state)
      ((table.rows.filter fun key => decide ((index, key) ∉ state.matched)).flatMap fun key =>
        growTuples (state.read nulls index ++ [some key]) rest)
      ((table.rows.filter fun key => decide ((index, key) ∉ state.matched)).flatMap fun key =>
        growMatches (index + 1) (state.read nulls index ++ [some key]) rest) := by
  let relies : List (Nat × Key) → Prop :=
    fun matched => ∀ key, (index, key) ∈ matched ↔ (index, key) ∈ state.matched
  have emitted : tmplTablejoinLoops canBeNull index nulls true table inner =
      .seq (.forKeys index nulls (table.scan true) (.doIfNotMatched index inner))
        (.keyFinish index) := by
    cases joined : table.joinType <;> rw [joined] at hasSecondHalf <;> cases hasSecondHalf <;>
      simp [tmplTablejoinLoops, joined, hasSecondHalf, isOuterJoin]
  have looped := exec_forKeys step index nulls (table.scan true) (.doIfNotMatched index inner)
    relies (fun key => decide ((index, key) ∉ state.matched))
    (fun key => growTuples (state.read nulls index ++ [some key]) rest)
    (fun key => growMatches (index + 1) (state.read nulls index ++ [some key]) rest)
    (by
      intro key matched relied other
      rw [mem_append, relied other, or_iff_left]
      exact fun later => not_succ_le_self index (le_of_mem_growMatches later))
    (by
      intro key current relied readCurrent chosen
      have tested : current.isMatched index = decide ((index, key) ∈ state.matched) := by
        rw [MState.isMatched, chosen]
        exact decide_eq_decide.mpr (relied key)
      by_cases known : (index, key) ∈ state.matched
      · simpa [exec, tested, known] using Effect.refl current
      · have innerEffect := (runsInner current).mono (le_succ index)
        rw [read_next notNull readCurrent chosen] at innerEffect
        simpa [exec, tested, known] using innerEffect)
    (fun _ => Iff.rfl) rfl
  rw [table.scan_secondHalf] at looped
  have finished := looped.trans (Effect.setKey _ none)
  rw [append_nil, append_nil] at finished
  rw [emitted]
  exact finished

/-- A LEFT JOIN resets its flag, runs its loops and calls `fallback` when no row matched. -/
theorem effect_leftJoin (isLeft : table.joinType.isLeftInFirstHalf = true) (fallback : MCode Key)
    (runsFallback : ∀ state : MState Key Result,
      Effect step index state (fallback.exec step state)
        (growTuples (state.read nulls index ++ [none]) rest)
        (growMatches (index + 1) (state.read nulls index ++ [none]) rest)) :
    Effect step index state
      ((doIfFlagZero index fallback).exec step
        ((tmplTablejoinLoops canBeNull index nulls false table inner).exec step
          (state.putFlag index false)))
      (growTuples (state.read nulls index) (table :: rest))
      (growMatches index (state.read nulls index) (table :: rest)) := by
  have reset : Effect step index state (state.putFlag index false) [] [] :=
    Effect.putFlag state false
  have looped := effect_tmplTablejoinLoops_firstHalf canBeNull (state.putFlag index false) runsInner
    notNull table
  have flag :=
    flags_tmplTablejoinLoops_firstHalf canBeNull (state.putFlag index false) runsInner notNull
    isLeft
  rw [reset.read] at looped flag
  have flagReset : (state.putFlag index false).flags index = false := if_pos rfl
  rw [flagReset] at flag
  have both := reset.trans looped
  rw [growTuples, growMatches, isLeft]
  cases empty : (table.matchedKeys (state.read nulls index)).isEmpty with
  | true =>
    have readBoth := both.read nulls
    have fellBack := both.trans (runsFallback _)
    rw [readBoth] at fellBack
    rw [exec, flag]
    simpa [isEmpty_iff.mp empty] using fellBack
  | false =>
    rw [exec, flag, empty]
    simpa using both

end OneTable

/-! ## The code of all tables -/

/-- The tables that are treated as NULL stand before `index`. -/
def NullsBelow (nulls : List Nat) (index : Nat) : Prop := ∀ table ∈ nulls, table < index

section Below

variable (below : NullsBelow nulls index)
include below

theorem NullsBelow.not_mem :
    index ∉ nulls := fun member => lt_irrefl index (below index member)

theorem NullsBelow.succ :
    NullsBelow nulls (index + 1) := fun table member => lt_succ_of_lt (below table member)

theorem NullsBelow.cons :
    NullsBelow (index :: nulls) (index + 1) :=
  forall_mem_cons.2 ⟨lt_succ_self index, below.succ⟩

end Below

/-- A key fixed to a column of a NULL row admits no row, so that skipping its loops loses none. -/
theorem matchedKeys_of_skipRightTablejoin [DecidableEq Key] (below : NullsBelow nulls index)
    (skips : skipRightTablejoin nulls table = true)
    (state : MState Key Result) : table.matchedKeys (state.read nulls index) = [] := by
  unfold skipRightTablejoin at skips
  split at skips
  case h_2 => cases skips
  case h_1 reference admits admitsNull fixed =>
    have isNull : reference ∈ nulls := of_decide_eq_true skips
    have reads : (state.read nulls index)[reference]? = some none := by
      simp [MState.read, below reference isNull, isNull]
    simp [matchedKeys, scan, fixed, admitsNull reference rfl _ _ reads]

/-- The code for a list of tables runs through everything that grows from the combination it
finds. -/
theorem exec_tmplTablejoinNested [DecidableEq Key] (step : Tuple Key → Result → Result)
    (canBeNull : Bool) (index : Nat) (nulls : List Nat) (rest : List (JoinTable Key))
    (below : NullsBelow nulls index) :
    RunsNested step index nulls (tmplTablejoinNested canBeNull index nulls rest) rest := by
  induction rest generalizing index nulls with
  | nil =>
    intro state
    exact ⟨fun _ _ => rfl, fun _ _ => rfl, (append_nil _).symm, rfl⟩
  | cons table rest ih =>
    intro state
    have runsInner := ih (index + 1) nulls below.succ
    have runsNull := ih (index + 1) (index :: nulls) below.cons
    have readNull : ∀ state : MState Key Result,
        state.read (index :: nulls) (index + 1) = state.read nulls index ++ [none] := by
      intro state
      rw [read_succ, read_cons_self, if_pos mem_cons_self]
    cases isLeft : table.joinType.isLeftInFirstHalf with
    | false =>
      have looped := effect_tmplTablejoinLoops_firstHalf canBeNull state runsInner below.not_mem
        table
      simpa [tmplTablejoinNested, growTuples, growMatches, isLeft] using looped
    | true =>
      cases canBeNull with
      | true =>
        -- The label is called with the cursor of the table set to NULL.
        have joined := effect_leftJoin true state runsInner below.not_mem isLeft
          (.seq (.setKeysNull index)
            (.doLabel index (tmplTablejoinNested true (index + 1) nulls rest)))
          (by
            intro current
            have nulled : Effect step index current (current.setKey index none) [] [] :=
              Effect.setKey current none
            have ran := nulled.trans ((runsInner (current.setKey index none)).mono
              (le_succ index))
            have chosen : (current.setKey index none).keys index = none := if_pos rfl
            rw [read_succ, nulled.read, if_neg below.not_mem, chosen] at ran
            exact ran)
        have finished := joined.trans (Effect.setKey _ none)
        rw [append_nil, append_nil] at finished
        rw [tmplTablejoinNested, if_pos isLeft]
        exact finished
      | false =>
        have runsFallback : ∀ current : MState Key Result,
            Effect step index current
              ((tmplTablejoinLoops false index (index :: nulls) false table
                (tmplTablejoinNested false (index + 1) (index :: nulls) rest)).exec step
                  current)
              (growTuples (current.read nulls index ++ [none]) rest)
              (growMatches (index + 1) (current.read nulls index ++ [none]) rest) := by
          intro current
          have ran := (runsNull current).mono (le_succ index)
          rw [readNull] at ran
          rw [tmplTablejoinLoops_treatedAsNull false _ mem_cons_self isLeft]
          exact ran
        rw [tmplTablejoinNested, if_pos isLeft]
        cases skips : skipRightTablejoin nulls table with
        | true =>
          rw [growTuples, growMatches, isLeft, matchedKeys_of_skipRightTablejoin below skips state]
          exact runsFallback state
        | false =>
          exact effect_leftJoin false state runsInner below.not_mem isLeft _ runsFallback

/-! ## The outermost call -/

/-- The combinations that the second halves give to the body, given the rows recorded so far. -/
def secondHalfTuples [DecidableEq Key] (index : Nat) (matched : List (Nat × Key)) :
    List (JoinTable Key) → List (Tuple Key)
  | [] => []
  | table :: rest =>
    if table.joinType.hasSecondHalf then
      let unmatched := table.rows.filter fun key => decide ((index, key) ∉ matched)
      (unmatched.flatMap fun key => growTuples (Operand.rightOnly index key) rest) ++
        secondHalfTuples (index + 1)
          (matched ++ unmatched.flatMap fun key =>
            growMatches (index + 1) (Operand.rightOnly index key) rest) rest
    else secondHalfTuples (index + 1) matched rest

theorem secondHalfTuples_cons [DecidableEq Key] (index : Nat) (matched : List (Nat × Key))
    (table : JoinTable Key) (rest : List (JoinTable Key)) :
    secondHalfTuples index matched (table :: rest) =
      if table.joinType.hasSecondHalf then
        let unmatched := table.rows.filter fun key => decide ((index, key) ∉ matched)
        (unmatched.flatMap fun key => growTuples (Operand.rightOnly index key) rest) ++
          secondHalfTuples (index + 1)
            (matched ++ unmatched.flatMap fun key =>
              growMatches (index + 1) (Operand.rightOnly index key) rest) rest
      else secondHalfTuples (index + 1) matched rest :=
  rfl

/-- The loop nullifies exactly the tables before the one it stops at. -/
theorem nullifyKeys_spec (nullified : ∀ table, table ∈ nulls ↔ table < curKey) (numTables : Nat) :
    (nullifyKeys nulls curKey numTables).2 = curKey + numTables ∧
      ∀ table, table ∈ (nullifyKeys nulls curKey numTables).1 ↔ table < curKey + numTables := by
  induction numTables generalizing nulls curKey with
  | zero => exact ⟨rfl, nullified⟩
  | succ numTables ih =>
    have next : ∀ table, table ∈ curKey :: nulls ↔ table < curKey + 1 := by
      intro table
      rw [mem_cons, nullified]
      omega
    obtain ⟨stops, marks⟩ := ih next
    refine ⟨by rw [nullifyKeys]; omega, fun table => ?_⟩
    rw [nullifyKeys, marks]
    omega

theorem read_of_nullified (nullified : ∀ table, table ∈ nulls ↔ table < index)
    (state : MState Key Result) : state.read nulls index = replicate index none := by
  rw [eq_replicate_iff]
  refine ⟨length_read state nulls index, fun entry member => ?_⟩
  obtain ⟨table, inRange, rfl⟩ := mem_map.mp member
  exact if_pos ((nullified table).mpr (mem_range.mp inRange))

/-- The second halves give to the body what grows from the rows that are not yet recorded as
matched. -/
theorem result_tmplTablejoinSecondHalves [DecidableEq Key] (step : Tuple Key → Result → Result)
    (canBeNull : Bool) (tables : List (JoinTable Key))
    (nullified : ∀ table, table ∈ nulls ↔ table < curKey) (numTables : Nat)
    (state : MState Key Result) :
    ((tmplTablejoinSecondHalves canBeNull nulls curKey numTables tables).exec step state).result =
      (secondHalfTuples (curKey + numTables) state.matched tables).foldl
        (fun result tuple => step tuple result) state.result := by
  induction tables generalizing nulls curKey numTables state with
  | nil => rfl
  | cons table rest ih =>
    rw [tmplTablejoinSecondHalves, secondHalfTuples_cons]
    cases hasSecondHalf : table.joinType.hasSecondHalf with
    | false => exact ih nullified (numTables + 1) state
    | true =>
      obtain ⟨stops, marks⟩ := nullifyKeys_spec nullified numTables
      simp only [if_true]
      generalize nullifyKeys nulls curKey numTables = nullification at stops marks ⊢
      obtain ⟨newNulls, newKey⟩ := nullification
      subst stops
      have below : NullsBelow newNulls (curKey + numTables) :=
        fun other member => (marks other).mp member
      have ran := effect_tmplTablejoinLoops_secondHalf canBeNull state
        (exec_tmplTablejoinNested step canBeNull _ _ rest below.succ) below.not_mem hasSecondHalf
      rw [read_of_nullified marks] at ran
      rw [exec, ih marks 1, ran.matched, ran.result, foldl_append]
      rfl

/-- The combinations that the emitted code gives to the body. -/
def joinTuples [DecidableEq Key] (tables : List (JoinTable Key)) : List (Tuple Key) :=
  growTuples [] tables ++ secondHalfTuples 0 (growMatches 0 [] tables) tables

/-- The state in which a plan starts: all its variables are NEWed. -/
def MState.initial (result : Result) : MState Key Result :=
  ⟨fun _ => none, fun _ => false, [], result⟩

/-- A run of the code of a whole FROM list. -/
theorem result_tmplTablejoin [DecidableEq Key] (step : Tuple Key → Result → Result)
    {first : JoinTable Key} (rest : List (JoinTable Key)) (starts : first.joinType = .noJoin)
    (result : Result) :
    ((tmplTablejoin (first :: rest)).exec step (MState.initial result)).result =
      (joinTuples (first :: rest)).foldl (fun result tuple => step tuple result) result := by
  let canBeNull := keyLvnCanBeZysqlnull (first :: rest)
  have ran := exec_tmplTablejoinNested step canBeNull 0 [] (first :: rest)
    (fun _ member => nomatch member) (MState.initial result)
  rw [tmplTablejoinNested, if_neg (by rw [starts]; decide)] at ran
  rw [tmplTablejoin, exec,
    result_tmplTablejoinSecondHalves step canBeNull _ (fun table => by simp) 0, ran.result,
    ran.matched, joinTuples, foldl_append]
  rfl

end Octo.Physical
