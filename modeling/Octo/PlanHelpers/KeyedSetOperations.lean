import Octo.PlanHelpers.SetOperations

/-!
# Set operations on rows in the subscripts

The helpers handle each subscript for itself: what they do at one depends on the numbers that the
operands have there. So a helper is followed at one subscript through all of its loops.
-/
namespace Octo.PlanHelpers

open LocalArray SetOperation

variable {keys : SetKeys} {cursor : KeyCursor} {m n : MValue → Nat}
variable {change : MValue → KeyPart → KeyPart} {body : MValue → KeyState → KeyState} {id : Nat}
  {table : KeyTable}

/-! ## One subscript -/

/-- What a helper has at one subscript: the node of the result and the one of the index. -/
structure KeyPart where
  out : Option Int
  index : Option Int

open KeyPart

/-- The part of a state at one subscript. -/
def KeyState.part (keys : SetKeys) (state : KeyState) (subs : MValue) : KeyPart :=
  ⟨(state.cursor keys.outputId).get? subs, state.index.get? subs⟩

theorem get?_out (state : KeyState) (subs : MValue) :
    (state.cursor keys.outputId).get? subs = (state.part keys subs).out :=
  rfl

theorem get?_index (state : KeyState) (subs : MValue) :
    state.index.get? subs = (state.part keys subs).index :=
  rfl

/-- A body that changes what belongs to its subscript, and no other table. -/
structure ActsAt (keys : SetKeys) (body : MValue → KeyState → KeyState)
    (change : MValue → KeyPart → KeyPart) : Prop where
  part : ∀ subs state other, (body subs state).part keys other =
    if other = subs then change subs (state.part keys subs) else state.part keys other
  others : ∀ subs state id, id ≠ keys.outputId → (body subs state).cursor id = state.cursor id

open ActsAt Option

namespace ActsAt

variable (val : MValue → Int)

/-- The commands of the helpers. Their value may depend on the subscript. -/
theorem setNode :
    ActsAt keys (fun subs => KeyState.setNode keys subs (val subs))
      fun subs part => { part with out := some (val subs) } where
  part subs state other := by
    by_cases same : other = subs <;>
      simp [KeyState.part, KeyState.setNode, KeyCursor.setNode, same]
  others subs state id differs := by
    simp [KeyState.setNode, KeyCursor.setNode, differs]

theorem incrementNode :
    ActsAt keys (fun subs => KeyState.incrementNode keys subs (val subs))
      fun subs part => { part with out := some (part.out.getD 0 + val subs) } where
  part subs state other := by
    by_cases same : other = subs <;>
      simp [KeyState.part, KeyState.incrementNode, KeyCursor.incrementNode, number, same]
  others subs state id differs := by
    simp [KeyState.incrementNode, KeyCursor.incrementNode, differs]

theorem setIndex :
    ActsAt keys (fun subs => KeyState.setIndex subs (val subs))
      fun subs part => { part with index := some (val subs) } where
  part subs state other := by
    by_cases same : other = subs <;> simp [KeyState.part, KeyState.setIndex, same]
  others _ _ _ _ := rfl

theorem killIndex :
    ActsAt keys KeyState.killIndex fun _ part => { part with index := none } where
  part subs state other := by
    by_cases same : other = subs <;> simp [KeyState.part, KeyState.killIndex, same]
  others _ _ _ _ := rfl

theorem incrementIndex :
    ActsAt keys (fun subs => KeyState.incrementIndex subs (val subs))
      fun subs part => { part with index := some (part.index.getD 0 + val subs) } where
  part subs state other := by
    by_cases same : other = subs <;>
      simp [KeyState.part, KeyState.incrementIndex, number, same]
  others _ _ _ _ := rfl

theorem skip : ActsAt keys (fun _ state => state) fun _ part => part where
  part subs state other := by
    split
    case isTrue same => rw [same]
    case isFalse => rfl
  others _ _ _ _ := rfl

/-- A command whose value depends on what is at the subscript. -/
theorem reading {Read : Type} {body : Read → MValue → KeyState → KeyState}
    {change : Read → MValue → KeyPart → KeyPart}
    (acts : ∀ read, ActsAt keys (body read) (change read))
    (read : MValue → KeyPart → Read) :
    ActsAt keys (fun subs state => body (read subs (state.part keys subs)) subs state)
      fun subs part => change (read subs part) subs part where
  part subs state other := (acts _).part subs state other
  others subs state id differs := (acts _).others subs state id differs

/-- A command under a condition on what is at the subscript. -/
theorem ifThen (acts : ActsAt keys body change) (condition : MValue → KeyPart → Prop)
    [∀ subs part, Decidable (condition subs part)] :
    ActsAt keys
      (fun subs state => if condition subs (state.part keys subs) then body subs state else state)
      fun subs part => if condition subs part then change subs part else part where
  part subs state other := by
    by_cases holds : condition subs (state.part keys subs)
    · simpa only [holds, if_true] using acts.part subs state other
    · simpa only [holds, if_false] using skip.part subs state other
  others subs state id differs := by
    by_cases holds : condition subs (state.part keys subs)
    · simpa only [holds, if_true] using acts.others subs state id differs
    · simp only [holds, if_false]

end ActsAt

section

variable (acts : ActsAt keys body change) (table : LocalArray MValue Int) (state : KeyState)
include acts

/-- A loop over a table follows its body at the subscripts of the table. -/
theorem forTested_part (subs : MValue) :
    (table.forTested body state).part keys subs =
      if table.data subs then change subs (state.part keys subs) else state.part keys subs :=
  forTested_pointwise acts.part table state subs

theorem forTested_others (differs : id ≠ keys.outputId) :
    (table.forTested body state).cursor id = state.cursor id := by
  rw [forTested_eq_foldl]
  refine foldl_done (fun _ (after : KeyState) => after.cursor id = state.cursor id) rfl ?_ _
  intro _ subs after same
  exact (acts.others subs after id differs).trans same

end

/-! ## Both operands -/

/-- The numbers of both operands. -/
structure KeyOperands (keys : SetKeys) (cursor : KeyCursor) (m n : MValue → Nat) : Prop where
  first : (cursor keys.inputId1).Holds m
  second : (cursor keys.inputId2).Holds n

theorem KeyTable.Holds.data (holds : table.Holds m) (subs : MValue) :
    table.data subs = true ↔ m subs ≠ 0 := by
  rw [LocalArray.data, holds subs]
  split <;> simp [*]

theorem KeyTable.Holds.number (holds : table.Holds m) (subs : MValue) :
    table.number subs = m subs := by
  rw [LocalArray.number, holds subs]
  split <;> simp [*]

/-- What a body makes of one subscript if it has a number there. -/
def KeyPart.visit (change : Int → KeyPart → KeyPart) (times : Nat) (part : KeyPart) : KeyPart :=
  if times = 0 then part else change times part

theorem forSubs_part {body : MValue → Int → KeyState → KeyState} {change : Int → KeyPart → KeyPart}
    {state : KeyState} (acts : ∀ val : MValue → Int,
      ActsAt keys (fun subs => body subs (val subs)) fun subs => change (val subs))
    (holds : (state.cursor id).Holds m) (subs : MValue) :
    (forSubs id body state).part keys subs = (state.part keys subs).visit change (m subs) := by
  unfold forSubs visit
  rw [forTested_part (acts _), holds.number]
  by_cases absent : m subs = 0
  · rw [if_neg (by rw [holds.data]; exact not_not_intro absent), if_pos absent]
  · rw [if_pos ((holds.data subs).mpr absent), if_neg absent]

variable {body : Bool → MValue → Int → KeyState → KeyState}
  {change : Bool → Int → KeyPart → KeyPart}

/-- The body acts at its subscript, with the number that the operand has there. -/
def ActsOnInputs (keys : SetKeys) (body : Bool → MValue → Int → KeyState → KeyState)
    (change : Bool → Int → KeyPart → KeyPart) : Prop :=
  ∀ (isFirst : Bool) (val : MValue → Int),
    ActsAt keys (fun subs => body isFirst subs (val subs)) fun subs => change isFirst (val subs)

theorem start_others (differs : id ≠ keys.outputId) :
    (KeyState.start keys cursor).cursor id = cursor id := by
  simp [KeyState.start, KeyCursor.kill, differs]

theorem forKeyInputs_others (acts : ActsOnInputs keys body change) (differs : id ≠ keys.outputId) :
    (forKeyInputs keys body cursor).cursor id = cursor id := by
  unfold forKeyInputs forSubs
  rw [forTested_others (acts _ _) _ _ differs, forTested_others (acts _ _) _ _ differs,
    start_others differs]

theorem columnkeyIntersectAllBody_acts :
    ActsOnInputs keys (columnkeyIntersectAllBody keys) (fun isFirst val part =>
      if isFirst then { part with index := some (part.index.getD 0 + val) }
      else if part.index.getD 0 ≠ 0 then
        { part with out := some (if val > part.index.getD 0 then part.index.getD 0 else val) }
      else part) := by
  intro isFirst val
  cases isFirst with
  | true => exact .incrementIndex val
  | false =>
    refine ifThen ?_ fun _ part => part.index.getD 0 ≠ 0
    exact reading (fun val2 => .setNode fun subs => if val subs > val2 then val2 else val subs)
      fun _ part => part.index.getD 0

theorem columnkeyIntersectBody_acts :
    ActsOnInputs keys (columnkeyIntersectBody keys) (fun isFirst _ part =>
      if isFirst then { part with index := some 1 }
      else if part.index.getD 0 ≠ 0 then { part with out := some 1 } else part) := by
  intro isFirst val
  cases isFirst with
  | true => exact .setIndex fun _ => 1
  | false => exact (setNode fun _ => 1).ifThen fun _ part => part.index.getD 0 ≠ 0

theorem columnkeyExceptAllBody_acts :
    ActsOnInputs keys columnkeyExceptAllBody (fun isFirst val part =>
      if isFirst then { part with index := some (part.index.getD 0 + val) }
      else if part.index.getD 0 ≠ 0 then
        { part with index := some (part.index.getD 0 +
            -(if val > part.index.getD 0 then part.index.getD 0 else val)) }
      else part) := by
  intro isFirst val
  cases isFirst with
  | true => exact .incrementIndex val
  | false =>
    refine ifThen ?_ fun _ part => part.index.getD 0 ≠ 0
    exact reading
      (fun val2 => .incrementIndex fun subs => -(if val subs > val2 then val2 else val subs))
      fun _ part => part.index.getD 0

theorem columnkeyExceptBody_acts :
    ActsOnInputs keys columnkeyExceptBody (fun isFirst _ part =>
      if isFirst then { part with index := some 1 }
      else if part.index.getD 0 ≠ 0 then { part with index := none } else part) := by
  intro isFirst val
  cases isFirst with
  | true => exact .setIndex fun _ => 1
  | false => exact killIndex.ifThen fun _ part => part.index.getD 0 ≠ 0

/-- A helper ends with the numbers of a set operation in its table. -/
def KeyPerforms (operation : SetOperation) (keys : SetKeys) (cursor : KeyCursor)
    (m n : MValue → Nat) (result : KeyCursor) : Prop :=
  (result keys.outputId).Holds (fun subs => operation.multiplicity (m subs) (n subs)) ∧
    ∀ id, id ≠ keys.outputId → result id = cursor id

section Operands

variable (operands : KeyOperands keys cursor m n)
include operands

theorem forKeyInputs_part (acts : ActsOnInputs keys body change) (subs : MValue) :
    (forKeyInputs keys body cursor).part keys subs =
      ((mk none none).visit (change true) (m subs)).visit (change false) (n subs) := by
  have start : (KeyState.start keys cursor).part keys subs = ⟨none, none⟩ := by
    simp [KeyState.start, KeyState.part, KeyCursor.kill]
  unfold forKeyInputs
  rw [decide_eq_true rfl, decide_eq_false keys.inputs_differ.symm]
  rw [forSubs_part (acts false), forSubs_part (acts true), start]
  · rw [start_others keys.output_ne_first.symm]
    exact operands.first
  · unfold forSubs
    rw [forTested_others (acts true _) _ _ keys.output_ne_second.symm,
      start_others keys.output_ne_second.symm]
    exact operands.second

/-! ## The helpers -/

theorem performs_columnkeyUnionAll :
    KeyPerforms .unionAll keys cursor m n (columnkeyUnionAll keys cursor) := by
  have acts : ActsOnInputs keys (fun _ subs val => KeyState.incrementNode keys subs val)
      (fun _ val part => { part with out := some (part.out.getD 0 + val) }) :=
    fun _ val => .incrementNode val
  refine ⟨fun subs => ?_, fun id => forKeyInputs_others acts⟩
  rw [columnkeyUnionAll, get?_out, forKeyInputs_part operands acts]
  unfold visit SetOperation.multiplicity
  split <;> split <;> simp [*]

theorem performs_columnkeyUnion :
    KeyPerforms .union keys cursor m n (columnkeyUnion keys cursor) := by
  have acts : ActsOnInputs keys (fun _ subs _ => KeyState.setNode keys subs 1)
      (fun _ _ part => { part with out := some 1 }) :=
    fun _ _ => .setNode fun _ => 1
  refine ⟨fun subs => ?_, fun id => forKeyInputs_others acts⟩
  rw [columnkeyUnion, get?_out, forKeyInputs_part operands acts]
  unfold visit SetOperation.multiplicity
  split <;> split <;> simp [*]

theorem performs_columnkeyIntersectAll :
    KeyPerforms .intersectAll keys cursor m n (columnkeyIntersectAll keys cursor) := by
  refine ⟨fun subs => ?_, fun id => forKeyInputs_others columnkeyIntersectAllBody_acts⟩
  rw [columnkeyIntersectAll, get?_out, forKeyInputs_part operands columnkeyIntersectAllBody_acts]
  unfold visit SetOperation.multiplicity
  by_cases noFirst : m subs = 0
  · simp [noFirst]
  · by_cases noSecond : n subs = 0
    · simp [noFirst, noSecond]
    · simp only [noSecond]
      simp [noFirst]
      omega

theorem performs_columnkeyIntersect :
    KeyPerforms .intersect keys cursor m n (columnkeyIntersect keys cursor) := by
  refine ⟨fun subs => ?_, fun id => forKeyInputs_others columnkeyIntersectBody_acts⟩
  rw [columnkeyIntersect, get?_out, forKeyInputs_part operands columnkeyIntersectBody_acts]
  unfold visit SetOperation.multiplicity
  split <;> split <;> simp [*]

/-- The numbers that are left behind the first loop of `columnkeyEXCEPTALL`. -/
theorem columnkeyExceptAll_index (subs : MValue) :
    (forKeyInputs keys columnkeyExceptAllBody cursor).part keys subs =
      ⟨none, if m subs = 0 then none else some ((m subs - n subs : Nat) : Int)⟩ := by
  rw [forKeyInputs_part operands columnkeyExceptAllBody_acts]
  unfold KeyPart.visit
  by_cases noFirst : m subs = 0
  · simp [noFirst]
  · by_cases noSecond : n subs = 0
    · simp [noFirst, noSecond]
    · simp only [noFirst, noSecond, if_false, if_true, Bool.false_eq_true, getD_none,
        getD_some, Int.zero_add, ne_eq, Int.natCast_eq_zero, not_false_eq_true,
        KeyPart.mk.injEq, some.injEq, true_and]
      omega

theorem performs_columnkeyExceptAll :
    KeyPerforms .exceptAll keys cursor m n (columnkeyExceptAll keys cursor) := by
  unfold columnkeyExceptAll
  generalize ended : forKeyInputs keys columnkeyExceptAllBody cursor = state
  have acts : ActsAt keys
      (fun subs after => if state.index.number subs = 0 then after
        else after.setNode keys subs (state.index.number subs))
      (fun subs part => if state.index.number subs = 0 then part
        else { part with out := some (state.index.number subs) }) := by
    have guarded := (@setNode keys state.index.number).ifThen
      fun subs _ => ¬state.index.number subs = 0
    simpa only [ite_not] using guarded
  refine ⟨fun subs => ?_, fun id differs => ?_⟩
  · have before := columnkeyExceptAll_index operands subs
    rw [ended] at before
    rw [get?_out, forTested_part acts, data, number, get?_index, before]
    unfold SetOperation.multiplicity
    by_cases noFirst : m subs = 0
    · simp [noFirst]
    · by_cases covered : m subs - n subs = 0 <;> simp [noFirst, covered]
  · rw [forTested_others acts _ _ differs, ← ended]
    exact forKeyInputs_others columnkeyExceptAllBody_acts differs

/-- The rows that are left behind the first loop of `columnkeyEXCEPT`. -/
theorem columnkeyExcept_index (subs : MValue) :
    (forKeyInputs keys columnkeyExceptBody cursor).part keys subs =
      ⟨none, if m subs ≠ 0 ∧ n subs = 0 then some 1 else none⟩ := by
  rw [forKeyInputs_part operands columnkeyExceptBody_acts]
  unfold visit
  split <;> split <;> simp [*]

theorem performs_columnkeyExcept :
    KeyPerforms .except keys cursor m n (columnkeyExcept keys cursor) := by
  have acts : ActsAt keys (fun subs => KeyState.setNode keys subs 1)
      (fun _ part => { part with out := some 1 }) := .setNode fun _ => 1
  unfold columnkeyExcept
  generalize ended : forKeyInputs keys columnkeyExceptBody cursor = state
  refine ⟨fun subs => ?_, fun id differs => ?_⟩
  · have before := columnkeyExcept_index operands subs
    rw [ended] at before
    rw [get?_out, forTested_part acts, data, get?_index, before]
    unfold SetOperation.multiplicity
    by_cases kept : m subs ≠ 0 ∧ n subs = 0
    · simp [kept]
    · simp [kept, Nat.pos_iff_ne_zero]
  · rw [forTested_others acts _ _ differs, ← ended]
    exact forKeyInputs_others columnkeyExceptBody_acts differs

end Operands

/-- Each helper for rows in the subscripts performs its set operation. -/
theorem performs_keyHelper (operation : SetOperation) (operands : KeyOperands keys cursor m n) :
    KeyPerforms operation keys cursor m n (operation.keyHelper keys cursor) := by
  cases operation with
  | unionAll => exact performs_columnkeyUnionAll operands
  | union => exact performs_columnkeyUnion operands
  | intersectAll => exact performs_columnkeyIntersectAll operands
  | intersect => exact performs_columnkeyIntersect operands
  | exceptAll => exact performs_columnkeyExceptAll operands
  | except => exact performs_columnkeyExcept operands

end Octo.PlanHelpers
