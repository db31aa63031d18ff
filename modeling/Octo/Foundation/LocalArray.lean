import Octo.Foundation.SubscriptTree

/-!
# One level of a local array

A level has a value at finitely many subscripts. `order` gives the subscript that follows another
one, and the least subscript when there is none: this subscript, the null string, ends a loop
although it can have a value itself. A loop that tests for a value before it walks on meets every
subscript. A loop that walks on first passes over the null string.
-/

/-- The values at the subscripts of one level, with the subscripts that have one. -/
structure LocalArray (Sub Value : Type) where
  subs : Finset Sub
  get? : Sub → Option Value
  mem_subs : ∀ sub, sub ∈ subs ↔ (get? sub).isSome

namespace LocalArray

open Finset

variable {Sub Value State : Type}

/-- A level without values. -/
def empty : LocalArray Sub Value where
  subs := ∅
  get? _ := none
  mem_subs := by simp

@[simp]
theorem get?_empty (sub : Sub) : (empty : LocalArray Sub Value).get? sub = none :=
  rfl

/-- Whether there is a value at a subscript. -/
def data (array : LocalArray Sub Value) (sub : Sub) : Bool :=
  (array.get? sub).isSome

theorem mem_subs_iff_data {array : LocalArray Sub Value} {sub : Sub} :
    sub ∈ array.subs ↔ array.data sub = true :=
  array.mem_subs sub

section Changes

variable [DecidableEq Sub]

def set (array : LocalArray Sub Value) (sub : Sub) (value : Value) : LocalArray Sub Value where
  subs := insert sub array.subs
  get? := Function.update array.get? sub (some value)
  mem_subs other := by
    rw [Finset.mem_insert, array.mem_subs, Function.update_apply]
    split
    case isTrue same => simp [same]
    case isFalse differs => simp [differs]

def kill (array : LocalArray Sub Value) (sub : Sub) : LocalArray Sub Value where
  subs := array.subs.erase sub
  get? := Function.update array.get? sub none
  mem_subs other := by
    rw [Finset.mem_erase, array.mem_subs, Function.update_apply]
    split
    case isTrue same => simp [same]
    case isFalse differs => simp [differs]

@[simp]
theorem get?_set (array : LocalArray Sub Value) (sub other : Sub) (value : Value) :
    (array.set sub value).get? other = if other = sub then some value else array.get? other :=
  Function.update_apply ..

@[simp]
theorem get?_kill (array : LocalArray Sub Value) (sub other : Sub) :
    (array.kill sub).get? other = if other = sub then none else array.get? other :=
  Function.update_apply ..

/-- The value at a subscript as a number, where no value is 0. -/
def number (array : LocalArray Sub Int) (sub : Sub) : Int :=
  (array.get? sub).getD 0

/-- Adds to the number at a subscript. -/
def increment (array : LocalArray Sub Int) (sub : Sub) (amount : Int) : LocalArray Sub Int :=
  array.set sub (array.number sub + amount)

@[simp]
theorem get?_increment (array : LocalArray Sub Int) (sub other : Sub) (amount : Int) :
    (array.increment sub amount).get? other =
      if other = sub then some (array.number sub + amount) else array.get? other :=
  array.get?_set ..

end Changes

/-! ## Loops over the subscripts -/

variable [LinearOrder Sub] [OrderBot Sub]

/-- The subscript that follows another one, or else the least one. -/
def order (array : LocalArray Sub Value) (sub : Sub) : Sub :=
  (Sweep.least (array.subs.filter (sub < ·))).getD ⊥

theorem order_cases (array : LocalArray Sub Value) (sub : Sub) :
    (array.order sub = ⊥ ∧ array.subs.filter (sub < ·) = ∅) ∨
      (array.order sub ≠ ⊥ ∧ array.order sub ∈ array.subs ∧ sub < array.order sub ∧
        ∀ other ∈ array.subs, sub < other → array.order sub ≤ other) := by
  unfold order Sweep.least
  split
  case isFalse isEmpty => exact Or.inl ⟨rfl, not_nonempty_iff_eq_empty.mp isEmpty⟩
  case isTrue nonempty =>
    have member := min'_mem _ nonempty
    rw [mem_filter] at member
    refine Or.inr ⟨(bot_le.trans_lt member.2).ne', member.1, member.2,
      fun other present behind => ?_⟩
    exact min'_le _ _ (mem_filter.mpr ⟨present, behind⟩)

/-- A loop that handles a subscript with a value and walks on. -/
def testFirst (array : LocalArray Sub Value) (body : Sub → State → State) :
    Nat → Sub → State → State
  | 0, _, state => state
  | turns + 1, sub, state =>
    let after := if array.data sub then body sub state else state
    let next := array.order sub
    if next = ⊥ then after else testFirst array body turns next after

/-- A loop that walks on and handles the subscript it comes to. -/
def walkFirst (array : LocalArray Sub Value) (body : Sub → State → State) :
    Nat → Sub → State → State
  | 0, _, state => state
  | turns + 1, sub, state =>
    let next := array.order sub
    if next = ⊥ then state else walkFirst array body turns next (body next state)

/-- The first kind of loop from the null string on. It has a turn for each subscript and one for the
null string. -/
def forTested (array : LocalArray Sub Value) (body : Sub → State → State) (state : State) : State :=
  array.testFirst body (array.subs.card + 1) ⊥ state

/-- The second kind of loop from the null string on. -/
def forWalked (array : LocalArray Sub Value) (body : Sub → State → State) (state : State) : State :=
  array.walkFirst body (array.subs.card + 1) ⊥ state

section

variable (array : LocalArray Sub Value) (body : Sub → State → State) (turns : Nat) (sub : Sub)
  (state : State)

theorem walkFirst_eq_foldl (enough : (array.subs.filter (sub < ·)).card ≤ turns) :
    array.walkFirst body turns sub state =
      ((array.subs.filter (sub < ·)).sort (· ≤ ·)).foldl (fun state sub => body sub state)
        state := by
  induction turns generalizing sub state with
  | zero => simp [walkFirst, card_eq_zero.mp (Nat.le_zero.mp enough)]
  | succ turns ih =>
    unfold walkFirst
    rcases array.order_cases sub with ⟨ends, behind⟩ | ⟨continues, present, follows, isLeast⟩
    · simp [ends, behind]
    · have fewer := Sweep.card_filter_lt_of_mem present follows
      rw [SubscriptTree.sort_filter_lt present follows isLeast]
      simp only [if_neg continues]
      exact ih _ _ (Nat.le_of_lt_succ (fewer.trans_le enough))

/-- Handling a subscript and walking on is walking on, once the first subscript was handled. -/
theorem testFirst_eq_walkFirst :
    array.testFirst body (turns + 1) sub state =
      array.walkFirst body turns sub (if array.data sub then body sub state else state) := by
  induction turns generalizing sub state with
  | zero => simp [testFirst, walkFirst]
  | succ turns ih =>
    rw [testFirst, walkFirst]
    rcases array.order_cases sub with ⟨ends, -⟩ | ⟨continues, present, -, -⟩
    · simp [ends]
    · simp only [ih]
      rw [if_pos (mem_subs_iff_data.mp present)]

end

/-- The null string stands before the other subscripts. -/
theorem sort_subs (subs : Finset Sub) :
    subs.sort (· ≤ ·) =
      (if ⊥ ∈ subs then [⊥] else []) ++ (subs.filter (⊥ < ·)).sort (· ≤ ·) := by
  split
  case isTrue present =>
    have split : subs = insert ⊥ (subs.filter (⊥ < ·)) := by
      ext sub
      rcases eq_bot_or_bot_lt sub with rfl | behind
      · simp [present]
      · simp [behind, behind.ne']
    conv_lhs => rw [split]
    rw [sort_insert]
    · rfl
    · exact fun _ _ => bot_le
    · simp
  case isFalse absent =>
    have same : subs.filter (⊥ < ·) = subs :=
      filter_true_of_mem fun sub present =>
        bot_lt_iff_ne_bot.mpr fun isBot => absent (isBot ▸ present)
    rw [same, List.nil_append]

section

variable (array : LocalArray Sub Value) (body : Sub → State → State) (state : State)

/-- The second kind of loop handles all subscripts but the null string. -/
theorem forWalked_eq_foldl :
    array.forWalked body state =
      ((array.subs.filter (⊥ < ·)).sort (· ≤ ·)).foldl (fun state sub => body sub state) state :=
  array.walkFirst_eq_foldl body _ ⊥ state ((card_filter_le ..).trans (Nat.le_succ _))

/-- The first kind of loop handles all subscripts. -/
theorem forTested_eq_foldl :
    array.forTested body state =
      (array.subs.sort (· ≤ ·)).foldl (fun state sub => body sub state) state := by
  unfold forTested
  rw [testFirst_eq_walkFirst, walkFirst_eq_foldl _ _ _ _ _ (card_filter_le ..),
    sort_subs array.subs]
  simp only [mem_subs_iff_data]
  split <;> rfl

end

/-! ## Loops that handle each subscript for itself -/

section Pointwise

variable {Part : Type} {part : State → Sub → Part} {body : Sub → State → State}
  {change : Sub → Part → Part}
  (pointwise : ∀ sub state other, part (body sub state) other =
    if other = sub then change sub (part state sub) else part state other)
include pointwise

omit [OrderBot Sub] in
theorem foldl_pointwise {subs : List Sub} (different : subs.Nodup) (state : State) (sub : Sub) :
    part (subs.foldl (fun state sub => body sub state) state) sub =
      if sub ∈ subs then change sub (part state sub) else part state sub := by
  induction subs generalizing state with
  | nil => simp
  | cons first rest ih =>
    obtain ⟨fresh, different⟩ := List.nodup_cons.mp different
    rw [List.foldl_cons, ih different, pointwise]
    by_cases same : sub = first
    · subst same
      simp [fresh]
    · simp [same]

/-- What a loop over all subscripts does if its body changes the part of the state that belongs to
its subscript. -/
theorem forTested_pointwise (array : LocalArray Sub Value) (state : State) (sub : Sub) :
    part (array.forTested body state) sub =
      if array.data sub then change sub (part state sub) else part state sub := by
  rw [forTested_eq_foldl, foldl_pointwise pointwise (sort_nodup ..)]
  simp only [mem_sort, mem_subs_iff_data]

end Pointwise

omit [LinearOrder Sub] [OrderBot Sub] in
/-- An invariant of a loop over a list that speaks about the elements that were handled. -/
theorem foldl_done {body : State → Sub → State} (inv : List Sub → State → Prop) {state : State}
    (start : inv [] state)
    (step : ∀ done sub state, inv done state → inv (done ++ [sub]) (body state sub))
    (subs : List Sub) : inv subs (subs.foldl body state) := by
  induction subs using List.reverseRecOn with
  | nil => exact start
  | append_singleton done sub ih =>
    rw [List.foldl_append]
    exact step done sub _ ih

end LocalArray
