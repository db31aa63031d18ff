import Octo.Schema.Catalog

/-!
# Storing the functions that a table depends on

While CREATE TABLE is parsed, each function that a CHECK constraint or an EXTRACT column calls is
noted in a local variable, under the pointer of the constraint or column, which has no name yet:
`("functions",pointer,functionHash)=functionName`. The names follow as
`("functions_map",pointer)=name`. `store_function_dependencies` turns these local nodes into the
nodes of `^%ydboctoocto`.

Its loop goes through the pointers but takes only the first function of each of them, so that
everything is recorded if and only if no constraint or column calls two functions.
-/
namespace Octo.Schema

open Sweep SubscriptTree Finset

/-- The pointers in a local variable. -/
def functionsMap : Subscript := .text "functions_map"

/-- A local variable. -/
abbrev LocalVariable := Finmap fun _ : List Subscript => Subscript

/-- `%ydboctoTblConstraint` or `%ydboctoTblExtract` as the parser leaves it. -/
structure LocalNodes where
  lvn : LocalVariable
  /-- Besides the calls there is the pointer of the constraint that was parsed last. -/
  functions_cases : ∀ path ∈ lvn, [functions] <+: path → path = [functions] ∨
    ∃ pointer functionHash, pointer ≠ ⊥ ∧ functionHash ≠ ⊥ ∧
      path = [functions, pointer, functionHash]
  /-- A constraint or column that calls a function has a name. -/
  named : ∀ pointer functionHash, [functions, pointer, functionHash] ∈ lvn →
    [functionsMap, pointer] ∈ lvn
  /-- The names of the constraints or columns of a table are different. -/
  name_injective : ∀ first second name, lvn.lookup [functionsMap, first] = some name →
    lvn.lookup [functionsMap, second] = some name → first = second

/-- The errors of the database calls, and the read of a buffer that was not set. -/
inductive StoreError where
  | nodeEnd
  | lvundef
  | uninitialized
  | outOfFuel
deriving DecidableEq

/-- The global and the buffer `dep_name`, which keeps its content from one iteration to the next. -/
structure StoreState where
  nodes : Finset (List Subscript)
  depName : Option Subscript

section Store

variable (tableName : Subscript) (dtype : DDLDependencyType) (lvn : LocalVariable)

/-- What is stored for a pointer. -/
def storePointer (pointer : Subscript) (state : StoreState) : Except StoreError StoreState :=
  match next lvn.keys [functions, pointer] ⊥ with
  | none => .error .nodeEnd
  | some functionHash =>
    match lvn.lookup [functions, pointer, functionHash] with
    | none => .error .lvundef
    | some functionName =>
      -- A pointer without a name is taken for an EXTRACT of a string literal.
      match (lvn.lookup [functionsMap, pointer]).or state.depName with
      | none => .error .uninitialized
      | some depName =>
        let dependency := ⟨depName, functionName, functionHash⟩
        .ok {
          nodes := insert (tableNode dtype tableName dependency)
            (insert (functionNode dtype tableName dependency) state.nodes)
          depName := some depName }

/-- The local variable, which is deleted, and the global after the local nodes were stored. -/
def storeFunctionDependencies (nodes : Finset (List Subscript)) :
    Except StoreError (LocalVariable × Finset (List Subscript)) :=
  match forEach .outOfFuel (fun pointer _ => next lvn.keys [functions] pointer)
      (storePointer tableName dtype lvn) (lvn.keys.card + 1) ⊥ ⟨nodes, none⟩ with
  | .error error => .error error
  | .ok state => .ok (∅, state.nodes)

end Store

namespace LocalNodes

variable (localNodes : LocalNodes)

/-- The constraint or column of a pointer calls a function. -/
def Calls (pointer : Subscript) (dependency : FunctionDependency) : Prop :=
  localNodes.lvn.lookup [functions, pointer, dependency.functionHash] =
      some dependency.functionName ∧
    localNodes.lvn.lookup [functionsMap, pointer] = some dependency.name

/-- The call that comes first in the order of the hashes. -/
def CallsFirst (pointer : Subscript) (dependency : FunctionDependency) : Prop :=
  localNodes.Calls pointer dependency ∧
    ∀ other, localNodes.Calls pointer other → dependency.functionHash ≤ other.functionHash

variable {localNodes}

variable {pointer functionHash : Subscript} {dependency : FunctionDependency}

/-- A call is determined by the pointer and the hash. -/
theorem Calls.eq {first second : FunctionDependency} (callsFirst : localNodes.Calls pointer first)
    (callsSecond : localNodes.Calls pointer second)
    (sameHash : first.functionHash = second.functionHash) : first = second := by
  obtain ⟨name, functionName, functionHash⟩ := first
  obtain ⟨otherName, otherFunction, otherHash⟩ := second
  obtain rfl : functionHash = otherHash := sameHash
  obtain rfl := Option.some.inj (callsFirst.1.symm.trans callsSecond.1)
  obtain rfl := Option.some.inj (callsFirst.2.symm.trans callsSecond.2)
  rfl

theorem exists_calls (member : [functions, pointer, functionHash] ∈ localNodes.lvn) :
    ∃ dependency, localNodes.Calls pointer dependency ∧
      dependency.functionHash = functionHash := by
  obtain ⟨functionName, isFunction⟩ := Finmap.mem_iff.mp member
  obtain ⟨name, isName⟩ := Finmap.mem_iff.mp (localNodes.named pointer functionHash member)
  exact ⟨⟨name, functionName, functionHash⟩, ⟨isFunction, isName⟩, rfl⟩

theorem Calls.mem (calls : localNodes.Calls pointer dependency) :
    [functions, pointer, dependency.functionHash] ∈ localNodes.lvn :=
  Finmap.mem_of_lookup_eq_some calls.1

theorem Calls.ne_bot (calls : localNodes.Calls pointer dependency) :
    pointer ≠ ⊥ ∧ dependency.functionHash ≠ ⊥ := by
  rcases localNodes.functions_cases _ calls.mem ⟨_, rfl⟩ with root | ⟨_, _, named, hashed, same⟩
  · cases root
  · simp only [List.cons.injEq, and_true, true_and] at same
    rw [same.1, same.2]
    exact ⟨named, hashed⟩

/-- The pointers under `"functions"` are those that call something. -/
theorem mem_subscripts_functions :
    pointer ∈ subscripts localNodes.lvn.keys [functions] ↔
      ∃ dependency, localNodes.Calls pointer dependency := by
  rw [mem_subscripts_iff]
  constructor
  · rintro ⟨path, member, starts⟩
    have present := Finmap.mem_keys.mp member
    rcases localNodes.functions_cases path present ((List.prefix_append ..).trans starts) with
      rfl | ⟨_, functionHash, -, -, rfl⟩
    · simp at starts
    · obtain rfl : pointer = _ := by simpa using starts
      obtain ⟨dependency, calls, -⟩ := exists_calls present
      exact ⟨dependency, calls⟩
  · rintro ⟨dependency, calls⟩
    exact ⟨_, Finmap.mem_keys.mpr calls.mem, [dependency.functionHash], rfl⟩

/-- The hashes under a pointer are those of the functions that it calls. -/
theorem mem_subscripts_pointer :
    functionHash ∈ subscripts localNodes.lvn.keys [functions, pointer] ↔
      [functions, pointer, functionHash] ∈ localNodes.lvn := by
  rw [mem_subscripts_iff]
  constructor
  · rintro ⟨path, member, starts⟩
    have present := Finmap.mem_keys.mp member
    rcases localNodes.functions_cases path present (.trans ⟨_, rfl⟩ starts) with
      rfl | ⟨_, _, -, -, rfl⟩
    · simp at starts
    · obtain ⟨rfl, rfl⟩ : pointer = _ ∧ functionHash = _ := by simpa using starts
      exact present
  · intro member
    exact ⟨_, Finmap.mem_keys.mpr member, List.prefix_rfl⟩

/-- The function whose hash is found first is called first. -/
theorem callsFirst_of_next
    (found : next localNodes.lvn.keys [functions, pointer] ⊥ = some functionHash) :
    ∃ dependency, localNodes.CallsFirst pointer dependency ∧
      dependency.functionHash = functionHash := by
  obtain ⟨present, -, isLeast⟩ := next_eq_some found
  obtain ⟨dependency, calls, rfl⟩ := exists_calls (mem_subscripts_pointer.mp present)
  refine ⟨dependency, ⟨calls, fun other otherCalls => ?_⟩, rfl⟩
  exact isLeast _ (mem_subscripts_pointer.mpr otherCalls.mem)
    (bot_lt_iff_ne_bot.mpr otherCalls.ne_bot.2)

variable (tableName : Subscript) (dtype : DDLDependencyType)

/-- One iteration stores the first call of its pointer. -/
theorem storePointer_eq_ok (calls : localNodes.Calls pointer dependency) (state : StoreState) :
    ∃ first, localNodes.CallsFirst pointer first ∧
      storePointer tableName dtype localNodes.lvn pointer state = .ok {
        nodes := insert (tableNode dtype tableName first)
          (insert (functionNode dtype tableName first) state.nodes)
        depName := some first.name } := by
  cases found : next localNodes.lvn.keys [functions, pointer] ⊥ with
  | none =>
    have present := mem_subscripts_pointer.mpr calls.mem
    exact absurd (bot_lt_iff_ne_bot.mpr calls.ne_bot.2) (next_eq_none found present)
  | some functionHash =>
    obtain ⟨first, callsFirst, rfl⟩ := callsFirst_of_next found
    refine ⟨first, callsFirst, ?_⟩
    simp only [storePointer, found, callsFirst.1.1, callsFirst.1.2, Option.some_or]

/-- The nodes that are there after the loop over some pointers. -/
theorem forList_storePointer (pointers : List Subscript)
    (calling : ∀ pointer ∈ pointers, ∃ dependency, localNodes.Calls pointer dependency)
    (state : StoreState) :
    ∃ final, forList (storePointer tableName dtype localNodes.lvn) pointers state = .ok final ∧
      ∀ node, node ∈ final.nodes ↔ node ∈ state.nodes ∨
        ∃ pointer ∈ pointers, ∃ dependency, localNodes.CallsFirst pointer dependency ∧
          (node = tableNode dtype tableName dependency ∨
            node = functionNode dtype tableName dependency) := by
  induction pointers generalizing state with
  | nil => exact ⟨state, rfl, by simp⟩
  | cons pointer rest ih =>
    obtain ⟨dependency, calls⟩ := calling pointer (List.mem_cons_self ..)
    obtain ⟨first, callsFirst, stored⟩ :=
      storePointer_eq_ok tableName dtype calls state
    obtain ⟨final, passed, mem_final⟩ :=
      ih (List.forall_mem_of_forall_mem_cons calling) _
    refine ⟨final, by rw [forList, stored]; exact passed, fun node => ?_⟩
    have unique : ∀ other, localNodes.CallsFirst pointer other ↔ other = first := by
      intro other
      constructor
      · intro otherFirst
        exact otherFirst.1.eq callsFirst.1
          (le_antisymm (otherFirst.2 _ callsFirst.1) (callsFirst.2 _ otherFirst.1))
      · rintro rfl
        exact callsFirst
    simp only [mem_final, mem_insert, List.exists_mem_cons_iff, unique, exists_eq_left,
      or_assoc, or_left_comm]

variable (localNodes) in
/-- The loop over the pointers does not run out of fuel. -/
theorem card_pointers_lt :
    ((subscripts localNodes.lvn.keys [functions]).filter (⊥ < ·)).card <
      localNodes.lvn.keys.card + 1 :=
  Nat.lt_succ_of_le ((card_filter_le _ _).trans (card_subscripts_le _ _))

variable (localNodes) in
/-- The first call of each pointer is stored, and nothing else. -/
theorem storeFunctionDependencies_eq_ok (nodes : Finset (List Subscript)) :
    ∃ after, storeFunctionDependencies tableName dtype localNodes.lvn nodes = .ok (∅, after) ∧
      ∀ node, node ∈ after ↔ node ∈ nodes ∨
        ∃ pointer dependency, localNodes.CallsFirst pointer dependency ∧
          (node = tableNode dtype tableName dependency ∨
            node = functionNode dtype tableName dependency) := by
  have isPointer : ∀ pointer,
      pointer ∈ ((subscripts localNodes.lvn.keys [functions]).filter (⊥ < ·)).sort (· ≤ ·) ↔
        ∃ dependency, localNodes.Calls pointer dependency := by
    intro pointer
    rw [mem_sort, mem_filter, mem_subscripts_functions, and_iff_left_iff_imp]
    rintro ⟨dependency, calls⟩
    exact bot_lt_iff_ne_bot.mpr calls.ne_bot.1
  obtain ⟨final, passed, mem_final⟩ := forList_storePointer tableName dtype _
    (fun pointer member => (isPointer pointer).mp member) ⟨nodes, none⟩
  refine ⟨final.nodes, ?_, fun node => ?_⟩
  · rw [storeFunctionDependencies, forEach_next _ _ _ (card_pointers_lt _), passed]
  · rw [mem_final]
    apply or_congr_right
    constructor
    · rintro ⟨pointer, -, stored⟩
      exact ⟨pointer, stored⟩
    · rintro ⟨pointer, dependency, callsFirst, isNode⟩
      exact ⟨pointer, (isPointer pointer).mpr ⟨dependency, callsFirst.1⟩, dependency, callsFirst,
        isNode⟩

/-- Both nodes of each call are there, and none of the functions can be dropped. -/
structure Recorded (localNodes : LocalNodes) (tableName : Subscript) (dtype : DDLDependencyType)
    (nodes : Finset (List Subscript)) : Prop where
  tableNode_mem : ∀ pointer dependency, localNodes.Calls pointer dependency →
    tableNode dtype tableName dependency ∈ nodes
  functionNode_mem : ∀ pointer dependency, localNodes.Calls pointer dependency →
    functionNode dtype tableName dependency ∈ nodes
  refused : ∀ pointer dependency, localNodes.Calls pointer dependency → ∀ ifExistsSpecified,
    ∃ error, DropFunctionStatement.dropFunction
      ⟨dependency.functionName, dependency.functionHash, ifExistsSpecified⟩ nodes false =
        .error error

end LocalNodes

/-- The functions of a table with a name are recorded in every state of the catalog if and only if
no constraint or column of it calls two functions. -/
theorem recorded_storeFunctionDependencies_iff (tableName : {name : Subscript // name ≠ ⊥})
    (dtype : DDLDependencyType) (localNodes : LocalNodes) :
    (∀ nodes, ∃ after,
      storeFunctionDependencies tableName dtype localNodes.lvn nodes = .ok (∅, after) ∧
        localNodes.Recorded tableName dtype after) ↔
      ∀ pointer first second, [functions, pointer, first] ∈ localNodes.lvn →
        [functions, pointer, second] ∈ localNodes.lvn → first = second := by
  constructor
  · intro recorded pointer first second firstMember secondMember
    obtain ⟨firstCall, callsFirst, rfl⟩ := LocalNodes.exists_calls firstMember
    obtain ⟨secondCall, callsSecond, rfl⟩ := LocalNodes.exists_calls secondMember
    obtain ⟨after, stored, isRecorded⟩ := recorded ∅
    obtain ⟨after', stored', mem_after⟩ :=
      localNodes.storeFunctionDependencies_eq_ok tableName.1 dtype ∅
    obtain rfl : after = after' := by simpa using stored.symm.trans stored'
    -- What is recorded was the first call of some pointer, and its name tells which one.
    have isFirst : ∀ dependency, localNodes.Calls pointer dependency →
        localNodes.CallsFirst pointer dependency := by
      intro dependency calls
      have member := isRecorded.tableNode_mem pointer dependency calls
      rw [mem_after] at member
      rcases member with absent | ⟨other, _, otherFirst, same | same⟩
      · exact absurd absent (notMem_empty _)
      · obtain ⟨-, -, rfl⟩ := tableNode_inj.mp same
        obtain rfl := localNodes.name_injective other pointer _ otherFirst.1.2 calls.2
        exact otherFirst
      · exact absurd same tableNode_ne_functionNode
    exact le_antisymm ((isFirst firstCall callsFirst).2 _ callsSecond)
      ((isFirst secondCall callsSecond).2 _ callsFirst)
  · intro atMostOne nodes
    obtain ⟨after, stored, mem_after⟩ :=
      localNodes.storeFunctionDependencies_eq_ok tableName.1 dtype nodes
    have isFirst : ∀ pointer dependency, localNodes.Calls pointer dependency →
        localNodes.CallsFirst pointer dependency := fun pointer dependency calls =>
      ⟨calls, fun other otherCalls => (atMostOne pointer _ _ calls.mem otherCalls.mem).le⟩
    have recorded : ∀ pointer dependency, localNodes.Calls pointer dependency →
        functionNode dtype tableName dependency ∈ after := fun pointer dependency calls =>
      (mem_after _).mpr (.inr ⟨pointer, dependency, isFirst pointer dependency calls, .inr rfl⟩)
    refine ⟨after, stored, ?_, recorded, ?_⟩
    · intro pointer dependency calls
      exact (mem_after _).mpr
        (.inr ⟨pointer, dependency, isFirst pointer dependency calls, .inl rfl⟩)
    · intro pointer dependency calls ifExistsSpecified
      exact DropFunctionStatement.dropFunction_of_functionNode_mem _ after tableName.2 rfl rfl
        (recorded pointer dependency calls)

/-- The first call of `CONSTRAINT positive CHECK (samevalue(id) > 0 AND abs(id) > 0)`. -/
def samevalueCall : FunctionDependency :=
  ⟨.text "positive", .text "samevalue", .text "%ydboctoFN1"⟩

/-- The second call of this constraint. -/
def absCall : FunctionDependency :=
  ⟨.text "positive", .text "abs", .text "%ydboctoFN2"⟩

/-- The constraint as the parser notes it. -/
def positiveCheck : LocalNodes where
  lvn := (((∅ : LocalVariable).insert [functions, .text "p", .text "%ydboctoFN1"]
    (.text "samevalue")).insert [functions, .text "p", .text "%ydboctoFN2"] (.text "abs")).insert
      [functionsMap, .text "p"] (.text "positive")
  functions_cases := by
    intro path member starts
    simp only [Finmap.mem_insert, Finmap.notMem_empty, or_false] at member
    rcases member with rfl | rfl | rfl
    · simp [functions, functionsMap, Subscript.text_inj] at starts
    · exact .inr ⟨_, _, Subscript.text_ne_bot _, Subscript.text_ne_bot _, rfl⟩
    · exact .inr ⟨_, _, Subscript.text_ne_bot _, Subscript.text_ne_bot _, rfl⟩
  named := by
    intro pointer functionHash member
    simp only [Finmap.mem_insert, Finmap.notMem_empty, or_false, List.cons.injEq] at member ⊢
    tauto
  name_injective := by
    have only : ∀ pointer : Subscript, pointer ≠ .text "p" →
        ((((∅ : LocalVariable).insert [functions, .text "p", .text "%ydboctoFN1"]
          (.text "samevalue")).insert [functions, .text "p", .text "%ydboctoFN2"]
            (.text "abs")).insert [functionsMap, .text "p"] (.text "positive")).lookup
              [functionsMap, pointer] = none := by
      intro pointer differs
      rw [Finmap.lookup_eq_none]
      simp [Finmap.mem_insert, Finmap.notMem_empty, differs]
    intro first second name isFirst isSecond
    by_contra differs
    by_cases atFirst : first = .text "p"
    · rw [only second (atFirst ▸ Ne.symm differs)] at isSecond
      cases isSecond
    · rw [only first atFirst] at isFirst
      cases isFirst

/-- The second function of the constraint is not recorded, and it can be dropped. -/
theorem dropFunction_positiveCheck :
    positiveCheck.Calls (.text "p") absCall ∧ ∃ after,
      storeFunctionDependencies (.text "names") .checkConstraint positiveCheck.lvn
        {lengthNode samevalueCall.functionName samevalueCall.functionHash,
          lengthNode absCall.functionName absCall.functionHash} = .ok (∅, after) ∧
      tableNode .checkConstraint (.text "names") absCall ∉ after ∧
      functionNode .checkConstraint (.text "names") absCall ∉ after ∧
      DropFunctionStatement.dropFunction ⟨absCall.functionName, absCall.functionHash, false⟩ after
        false = .ok (kill after [functions, absCall.functionName, absCall.functionHash]) := by
  refine ⟨⟨by decide +kernel, by decide +kernel⟩,
    insert (tableNode .checkConstraint (.text "names") samevalueCall)
      (insert (functionNode .checkConstraint (.text "names") samevalueCall)
        {lengthNode samevalueCall.functionName samevalueCall.functionHash,
          lengthNode absCall.functionName absCall.functionHash}), ?_, ?_, ?_, ?_⟩
  all_goals decide +kernel

end Octo.Schema
