import Mathlib

/-!
# Walks over one level of subscripts

The subscripts of one level are an ascending list without the least element, the null string. From a
subscript one can go to the next or to the previous one, and from the null string to the first or to
the last one; behind the end one comes to the null string. A loop that goes on until it meets the
null string or a subscript that stops it meets the subscripts behind its start, up to the first that
stops it.
-/
namespace Octo.Foundation

open List Or

variable {Sub : Type} [LinearOrder Sub] [OrderBot Sub]
variable {sub : Sub} {Item : Type} {here : Sub}

/-- The subscripts of a level. -/
structure SubscriptLevel (Sub : Type) [LinearOrder Sub] [OrderBot Sub] where
  subs : List Sub
  sorted : subs.Pairwise (· < ·)
  notNull : ∀ sub ∈ subs, sub ≠ ⊥

/-- A subscript comes before another one in a direction. -/
def precedes (descending : Bool) (first second : Sub) : Prop :=
  if descending then second < first else first < second

/-- A subscript lies behind the one that a walk is at. -/
def behind (descending : Bool) (here sub : Sub) : Bool :=
  if descending then here = ⊥ ∨ sub < here else here < sub

theorem behind_of_precedes {descending : Bool} {first second : Sub}
    (firstBehind : behind descending here first = true)
    (order : precedes descending first second) : behind descending here second = true := by
  cases descending with
  | false => exact decide_eq_true (lt_trans (of_decide_eq_true firstBehind) order)
  | true =>
    obtain isNull | less := of_decide_eq_true firstBehind
    · exact decide_eq_true (inl isNull)
    · exact decide_eq_true (inr (lt_trans order less))

/-- Every subscript lies behind the null string. -/
theorem behind_bot (descending : Bool) (notNull : sub ≠ ⊥) : behind descending ⊥ sub = true := by
  cases descending with
  | false => exact decide_eq_true (bot_lt_iff_ne_bot.mpr notNull)
  | true => exact decide_eq_true (inl rfl)

namespace SubscriptLevel

variable (level : SubscriptLevel Sub) (descending : Bool) (stops : Sub → Bool)

/-- The subscripts in a direction. -/
def inOrder : List Sub :=
  if descending then level.subs.reverse else level.subs

/-- The subscript that follows another one in a direction. -/
def next (here : Sub) : Sub :=
  ((level.inOrder descending).find? (behind descending here)).getD ⊥

/-- The subscripts that a loop meets. -/
def walk (stops : Sub → Bool) : Nat → Sub → List Sub
  | 0, _ => []
  | turns + 1, here =>
    let sub := level.next descending here
    if sub = ⊥ || stops sub then [] else sub :: walk stops turns sub

/-- A loop that only its test stops, with the turns that it is given. It fails without an end in
these turns, and at the null string, where there is nothing to loop over. -/
def loop (stops : Sub → Bool) : Nat → Sub → Option (List Sub)
  | 0, _ => none
  | turns + 1, here =>
    let sub := level.next descending here
    if stops sub then some []
    else if sub = ⊥ then none
    else (loop stops turns sub).map (sub :: ·)

@[simp]
theorem mem_inOrder : sub ∈ level.inOrder descending ↔ sub ∈ level.subs := by
  unfold inOrder
  split
  · exact mem_reverse
  · exact Iff.rfl

theorem length_inOrder : (level.inOrder descending).length = level.subs.length := by
  unfold inOrder
  split
  · exact length_reverse
  · rfl

theorem inOrder_pairwise : (level.inOrder descending).Pairwise (precedes descending) := by
  cases descending with
  | false => exact level.sorted
  | true => exact pairwise_reverse.mpr level.sorted

section

variable {before after : List Sub} (split : level.inOrder descending = before ++ sub :: after)
include split

/-- The subscripts around one of them: none before it lies behind it, and all after it do. -/
theorem behind_split :
    (∀ other ∈ before, other ≠ sub ∧ behind descending sub other = false) ∧
      behind descending sub sub = false ∧
      ∀ other ∈ after, behind descending sub other = true := by
  have sorted := level.inOrder_pairwise descending
  have present : sub ∈ level.subs := by
    rw [← level.mem_inOrder descending, split]
    exact mem_append_right _ mem_cons_self
  have notNull : sub ≠ ⊥ := level.notNull sub present
  rw [split] at sorted
  obtain ⟨-, restSorted, beforeRest⟩ := pairwise_append.mp sorted
  have earlier := fun other member => beforeRest other member sub mem_cons_self
  have later := (pairwise_cons.mp restSorted).1
  cases descending with
  | false =>
    refine ⟨fun other member => ?_, decide_eq_false (lt_irrefl sub), fun other member => ?_⟩
    · have less : other < sub := earlier other member
      exact ⟨less.ne, decide_eq_false (lt_asymm less)⟩
    · exact decide_eq_true (later other member)
  | true =>
    refine ⟨fun other member => ?_, decide_eq_false ?_, fun other member => ?_⟩
    · have less : sub < other := earlier other member
      exact ⟨less.ne', decide_eq_false (not_or.mpr ⟨notNull, lt_asymm less⟩)⟩
    · exact not_or.mpr ⟨notNull, lt_irrefl sub⟩
    · exact decide_eq_true (inr (later other member))

/-- What lies behind a subscript of the level. -/
theorem filter_behind : (level.inOrder descending).filter (behind descending sub) = after := by
  obtain ⟨earlier, here, later⟩ := level.behind_split descending split
  rw [split, filter_append, filter_cons_of_neg (by simp [here]),
    filter_eq_self.mpr later, filter_eq_nil_iff.mpr, nil_append]
  exact fun other member => by simp [(earlier other member).2]

end

/-- The next subscript is the first of those behind. -/
theorem next_eq (here : Sub) :
    level.next descending here =
      ((level.inOrder descending).filter (behind descending here)).head?.getD ⊥ := by
  rw [next, head?_filter]

/-- Going on leads to a subscript of the level or behind its end. -/
theorem next_cases (here : Sub) :
    level.next descending here = ⊥ ∨ level.next descending here ∈ level.subs := by
  rw [next]
  cases found : (level.inOrder descending).find? (behind descending here) with
  | none => exact inl rfl
  | some sub => exact inr ((level.mem_inOrder descending).mp (mem_of_find?_eq_some found))

/-- A turn of a loop either comes to the null string, or to a subscript with the others behind
it. -/
theorem turn_cases (here : Sub) :
    (level.inOrder descending).filter (behind descending here) = [] ∧
        level.next descending here = ⊥ ∨
      ∃ sub, sub ≠ ⊥ ∧ level.next descending here = sub ∧
        (level.inOrder descending).filter (behind descending here) =
          sub :: (level.inOrder descending).filter (behind descending sub) := by
  rw [next_eq]
  cases remaining : (level.inOrder descending).filter (behind descending here) with
  | nil => exact inl ⟨rfl, rfl⟩
  | cons sub rest =>
    obtain ⟨before, after, split, -, subBehind, restEq⟩ := filter_eq_cons_iff.mp remaining
    have present : sub ∈ level.subs := by
      rw [← level.mem_inOrder descending, split]
      exact mem_append_right _ mem_cons_self
    have sorted := level.inOrder_pairwise descending
    rw [split] at sorted
    have afterSorted := (pairwise_cons.mp (pairwise_append.mp sorted).2.1).1
    refine inr ⟨sub, level.notNull sub present, rfl, ?_⟩
    rw [level.filter_behind descending split, ← restEq]
    refine congrArg (sub :: ·) (filter_eq_self.mpr fun other member => ?_)
    exact behind_of_precedes subBehind (afterSorted other member)

/-- A loop meets the subscripts behind its start up to the first that stops it. -/
theorem walk_eq {turns : Nat}
    (enough : ((level.inOrder descending).filter (behind descending here)).length < turns) :
    level.walk descending stops turns here =
      ((level.inOrder descending).filter (behind descending here)).takeWhile
        fun sub => !stops sub := by
  induction turns generalizing here with
  | zero => exact absurd enough (Nat.not_lt_zero _)
  | succ turns ih =>
    rw [walk]
    obtain ⟨none, atEnd⟩ | ⟨sub, notNull, isNext, remaining⟩ := level.turn_cases descending here
    · simp [none, atEnd]
    · rw [remaining] at enough
      rw [isNext, remaining, takeWhile_cons, decide_eq_false notNull,
        ih (Nat.lt_of_succ_lt_succ enough)]
      cases stops sub <;> rfl

/-- A loop ends if its test stops it at the null string or at a subscript behind its start, and it
has met the same subscripts as a walk then. -/
theorem loop_eq {turns : Nat}
    (enough : ((level.inOrder descending).filter (behind descending here)).length < turns) :
    level.loop descending stops turns here =
      if stops ⊥ || ((level.inOrder descending).filter (behind descending here)).any stops then
        some (level.walk descending stops turns here)
      else none := by
  induction turns generalizing here with
  | zero => exact absurd enough (Nat.not_lt_zero _)
  | succ turns ih =>
    rw [loop, walk]
    obtain ⟨none, atEnd⟩ | ⟨sub, notNull, isNext, remaining⟩ := level.turn_cases descending here
    · simp [none, atEnd]
    · rw [remaining] at enough
      rw [isNext, remaining, any_cons, decide_eq_false notNull, ih (Nat.lt_of_succ_lt_succ enough)]
      cases stops sub with
      | true => simp
      | false =>
        simp only [Bool.false_eq_true, if_false, if_neg notNull, Bool.false_or]
        split <;> rfl

theorem loop_mono {turns more : Nat} {values : List Sub} (le : turns ≤ more)
    (ended : level.loop descending stops turns here = some values) :
    level.loop descending stops more here = some values := by
  induction turns generalizing here more values with
  | zero => cases ended
  | succ turns ih =>
    obtain ⟨more, rfl⟩ := Nat.exists_eq_succ_of_ne_zero (Nat.ne_zero_of_lt le)
    rw [loop] at ended ⊢
    split at ended
    · rwa [if_pos ‹_›]
    · rw [if_neg ‹_›]
      split at ended
      · cases ended
      · obtain ⟨rest, restEnded, rfl⟩ := Option.map_eq_some_iff.mp ended
        rw [if_neg ‹_›, ih (Nat.le_of_succ_le_succ le) restEnded]
        rfl

/-- A turn for each subscript and one more are enough for every loop. -/
theorem length_behind_lt (start : Sub) :
    ((level.inOrder descending).filter (behind descending start)).length <
      level.subs.length + 1 := by
  refine Nat.lt_succ_of_le ((length_filter_le _ _).trans ?_)
  rw [level.length_inOrder]

/-- With any number of turns, a loop ends if and only if its test stops it. -/
theorem exists_loop_iff (start : Sub) :
    (∃ turns, level.loop descending stops turns start =
        some (level.walk descending stops (level.subs.length + 1) start)) ↔
      stops ⊥ = true ∨ ∃ sub ∈ level.subs, behind descending start sub = true ∧
        stops sub = true := by
  have enough := level.length_behind_lt descending start
  have stopped : (stops ⊥ || ((level.inOrder descending).filter (behind descending start)).any
      stops) = true ↔ stops ⊥ = true ∨ ∃ sub ∈ level.subs, behind descending start sub = true ∧
        stops sub = true := by
    simp
  rw [← stopped]
  constructor
  · rintro ⟨turns, ended⟩
    have later := level.loop_mono descending stops
      (Nat.le_add_right turns (level.subs.length + 1)) ended
    rw [level.loop_eq descending stops (Nat.lt_of_lt_of_le enough (Nat.le_add_left _ turns))]
      at later
    by_contra endless
    rw [if_neg endless] at later
    cases later
  · intro holds
    exact ⟨_, (level.loop_eq descending stops enough).trans (if_pos holds)⟩

/-- With a turn for each subscript and one more, a loop meets subscripts behind its start. -/
theorem walk_sublist (start : Sub) :
    (level.walk descending stops (level.subs.length + 1) start).Sublist
      ((level.inOrder descending).filter (behind descending start)) := by
  rw [level.walk_eq descending stops (level.length_behind_lt descending start)]
  exact takeWhile_sublist _

/-- A subscript does not lie behind itself. -/
theorem ne_of_behind (stored : sub ∈ level.subs)
    (later : behind descending here sub = true) : sub ≠ here := by
  rintro rfl
  cases descending with
  | false => exact lt_irrefl _ (of_decide_eq_true later)
  | true =>
    obtain isNull | less := of_decide_eq_true later
    · exact level.notNull _ stored isNull
    · exact lt_irrefl _ less

/-- A start that is handled before the walk stands in front of what lies behind it. -/
theorem filter_start_or_behind (here : Sub) :
    (level.inOrder descending).filter (fun sub => sub = here ∨ behind descending here sub = true) =
      (if here ∈ level.subs then [here] else []) ++
        (level.inOrder descending).filter (behind descending here) := by
  by_cases present : here ∈ level.subs
  · obtain ⟨before, after, split⟩ :=
      append_of_mem ((level.mem_inOrder descending).mpr present)
    obtain ⟨earlier, -, later⟩ := level.behind_split descending split
    rw [if_pos present, level.filter_behind descending split, split, filter_append,
      filter_cons_of_pos (by simp), filter_eq_nil_iff.mpr,
      filter_eq_self.mpr, nil_append, singleton_append]
    · exact fun other member => by simp [later other member]
    · exact fun other member => by simp [earlier other member]
  · rw [if_neg present]
    refine filter_congr fun sub member => ?_
    have different : sub ≠ here := by
      rintro rfl
      exact present ((level.mem_inOrder descending).mp member)
    simp [different]

end SubscriptLevel

/-- A test that only fails behind the items that pass it cuts off as many as it filters out. -/
theorem takeWhile_eq_filter_iff (test : Item → Bool) (items : List Item) :
    items.takeWhile test = items.filter test ↔
      items.Pairwise fun first second => test second = true → test first = true := by
  induction items with
  | nil => exact iff_of_true rfl List.Pairwise.nil
  | cons item items ih =>
    rw [takeWhile_cons, filter_cons, pairwise_cons]
    cases passes : test item with
    | true => simp [ih]
    | false =>
      simp only [Bool.false_eq_true, imp_false, Bool.not_eq_true]
      constructor
      · intro failing
        have failing : ∀ other ∈ items, test other = false := by simpa using failing
        refine ⟨failing, pairwise_of_forall_mem_list fun first _ second inItems => ?_⟩
        simp [failing second inItems]
      · rintro ⟨failing, -⟩
        simpa using failing

theorem filter_eq_filter_iff (left right : Item → Bool) (items : List Item) :
    items.filter left = items.filter right ↔ ∀ item ∈ items, left item = right item := by
  refine ⟨fun same item member => ?_, filter_congr⟩
  have iff : item ∈ items.filter left ↔ item ∈ items.filter right := by rw [same]
  rw [mem_filter, mem_filter, and_iff_right member, and_iff_right member] at iff
  exact Bool.eq_iff_iff.mpr iff

/-- A loop that starts late and stops early still meets all items that pass its test. -/
theorem takeWhile_filter_eq_filter_iff (starts test : Item → Bool) (items : List Item) :
    (items.filter starts).takeWhile test = items.filter test ↔
      (∀ item ∈ items, test item = true → starts item = true) ∧
        (items.filter starts).Pairwise fun first second =>
          test second = true → test first = true := by
  have late (within : ∀ item ∈ items, test item = true → starts item = true) :
      items.filter test = (items.filter starts).filter test := by
    rw [filter_filter]
    refine filter_congr fun item member => ?_
    cases passes : test item with
    | false => rfl
    | true => rw [within item member passes]; rfl
  constructor
  · intro same
    have within : ∀ item ∈ items, test item = true → starts item = true := by
      intro item member passes
      have inFilter : item ∈ items.filter test := mem_filter.mpr ⟨member, passes⟩
      rw [← same] at inFilter
      exact (mem_filter.mp ((takeWhile_sublist _).subset inFilter)).2
    refine ⟨within, (takeWhile_eq_filter_iff _ _).mp ?_⟩
    rw [same, late within]
  · rintro ⟨within, closed⟩
    rw [late within]
    exact (takeWhile_eq_filter_iff _ _).mpr closed

end Octo.Foundation
