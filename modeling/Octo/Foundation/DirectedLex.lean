import Octo.Foundation.SubscriptLevel

/-!
# Lexicographic orders with directions

Lists are compared place by place, where each place is ascending or descending. Lists without
repetition that are sorted by one such order are equal when they have the same members, so a sorted
part of a sorted list is a filter of it.
-/
namespace Octo.Foundation

variable {Sub : Type} [LinearOrder Sub]
variable {directions : List Bool}

/-- The first list comes before the second one. -/
def lexStrict : List Bool → List Sub → List Sub → Prop
  | descending :: directions, first :: firsts, second :: seconds =>
    precedes descending first second ∨ first = second ∧ lexStrict directions firsts seconds
  | _, _, _ => False

/-- The first list comes before the second one, or the places that have a direction are equal. -/
def lexBefore : List Bool → List Sub → List Sub → Prop
  | descending :: directions, first :: firsts, second :: seconds =>
    precedes descending first second ∨ first = second ∧ lexBefore directions firsts seconds
  | _, _, _ => True

instance (descending : Bool) (first second : Sub) : Decidable (precedes descending first second) :=
  inferInstanceAs (Decidable (if descending then second < first else first < second))

instance decidableLexBefore :
    (directions : List Bool) → (firsts seconds : List Sub) →
      Decidable (lexBefore directions firsts seconds)
  | descending :: directions, first :: firsts, second :: seconds =>
    have := decidableLexBefore directions firsts seconds
    inferInstanceAs (Decidable (precedes descending first second ∨
      first = second ∧ lexBefore directions firsts seconds))
  | [], _, _ => isTrue trivial
  | _ :: _, [], _ => isTrue trivial
  | _ :: _, _ :: _, [] => isTrue trivial

theorem precedes_irrefl (descending : Bool) (sub : Sub) : ¬ precedes descending sub sub := by
  cases descending <;> exact lt_irrefl sub

theorem precedes_asymm {descending : Bool} {first second : Sub}
    (order : precedes descending first second) : ¬ precedes descending second first := by
  cases descending <;> exact lt_asymm order

section

variable {firsts seconds : List Sub} (order : lexStrict directions firsts seconds)
include order

theorem lexStrict_asymm : ¬ lexStrict directions seconds firsts := by
  induction directions generalizing firsts seconds with
  | nil => exact fun back => back
  | cons descending directions ih =>
    cases firsts with
    | nil => exact order.elim
    | cons first firsts =>
      cases seconds with
      | nil => exact order.elim
      | cons second seconds =>
        rintro (back | ⟨same, back⟩)
        · obtain order | ⟨rfl, -⟩ := order
          · exact precedes_asymm order back
          · exact precedes_irrefl _ _ back
        · obtain order | ⟨-, order⟩ := order
          · rw [same] at order
            exact precedes_irrefl _ _ order
          · exact ih order back

/-- A list that comes before another one does so whatever follows, and as far as the first places
go. -/
theorem lexBefore_of_lexStrict (more : List Bool) (moreFirsts moreSeconds : List Sub)
    (count : Nat) :
    lexBefore ((directions ++ more).take count) (firsts ++ moreFirsts)
      (seconds ++ moreSeconds) := by
  induction directions generalizing firsts seconds count with
  | nil => exact order.elim
  | cons descending directions ih =>
    cases count with
    | zero => trivial
    | succ count =>
      cases firsts with
      | nil => exact order.elim
      | cons first firsts =>
        cases seconds with
        | nil => exact order.elim
        | cons second seconds => exact order.imp id fun ⟨same, later⟩ => ⟨same, ih later count⟩

end

/-- Lists that begin with the same places are compared by what follows. -/
theorem lexBefore_append_same {subs : List Sub} (length : subs.length = directions.length)
    (more : List Bool) (firsts seconds : List Sub) (count : Nat) :
    lexBefore ((directions ++ more).take count) (subs ++ firsts) (subs ++ seconds) ↔
      lexBefore (more.take (count - directions.length)) firsts seconds := by
  induction directions generalizing subs count with
  | nil =>
    rw [List.length_eq_zero_iff.mp length]
    rfl
  | cons descending directions ih =>
    cases subs with
    | nil => cases length
    | cons sub subs =>
      cases count with
      | zero => simp [lexBefore]
      | succ count =>
        simp [lexBefore, precedes_irrefl, ih (Nat.succ.inj length)]

/-- Only the places that have a direction are compared. -/
theorem lexBefore_take (directions : List Bool) (firsts seconds : List Sub) :
    lexBefore directions (firsts.take directions.length) (seconds.take directions.length) ↔
      lexBefore directions firsts seconds := by
  induction directions generalizing firsts seconds with
  | nil => exact Iff.rfl
  | cons descending directions ih =>
    cases firsts with
    | nil => exact Iff.rfl
    | cons first firsts =>
      cases seconds with
      | nil => exact Iff.rfl
      | cons second seconds => exact or_congr_right (and_congr_right fun _ => ih firsts seconds)

/-- A sorted list of members of a sorted list is a filter of it. -/
theorem eq_filter_mem_of_pairwise {Item : Type} [DecidableEq Item] {order : Item → Item → Prop}
    (asymmetric : ∀ first second, order first second → ¬ order second first)
    {items part : List Item} (sorted : items.Pairwise order) (partSorted : part.Pairwise order)
    (within : ∀ item ∈ part, item ∈ items) : part = items.filter (· ∈ part) := by
  have distinct {list : List Item} (sorted : list.Pairwise order) : list.Nodup :=
    sorted.imp fun {first second} before same => by
      subst same
      exact asymmetric _ _ before before
  have members : part.Perm (items.filter (· ∈ part)) := by
    refine (List.perm_ext_iff_of_nodup (distinct partSorted) ((distinct sorted).filter _)).mpr ?_
    intro item
    rw [List.mem_filter, decide_eq_true_eq]
    exact ⟨fun member => ⟨within item member, member⟩, And.right⟩
  exact members.eq_of_pairwise (fun first second _ _ before back => absurd back
    (asymmetric _ _ before))
    partSorted (sorted.filter _)

/-- A list whose items come by rank, and in order within a rank, is in order when items of different
ranks are. -/
theorem pairwise_iff_of_rank {Item : Type} {before : Item → Item → Prop} {rank : Item → Nat}
    {items : List Item} (sorted : items.Pairwise fun first second =>
      rank first < rank second ∨ rank first = rank second ∧ before first second) :
    items.Pairwise before ↔ ∀ first ∈ items, ∀ second ∈ items, rank first < rank second →
      before first second := by
  constructor
  · intro inOrder
    let both (first second : Item) : Prop :=
      (rank first < rank second → before first second) ∧
        (rank second < rank first → before second first)
    have symmetric : Std.Symm both := ⟨fun _ _ => And.symm⟩
    have related : items.Pairwise both := by
      refine (sorted.and inOrder).imp fun {first second} ⟨follows, order⟩ => ⟨fun _ => order, ?_⟩
      intro later
      omega
    have reflexive (item : Item) (_ : item ∈ items) : both item item :=
      ⟨fun less => absurd less (lt_irrefl _), fun less => absurd less (lt_irrefl _)⟩
    exact fun first inFirst second inSecond =>
      (related.forall_of_forall reflexive inFirst inSecond).1
  · intro inOrder
    refine sorted.imp_of_mem fun {first second} inFirst inSecond follows => ?_
    obtain earlier | ⟨-, order⟩ := follows
    · exact inOrder first inFirst second inSecond earlier
    · exact order

end Octo.Foundation
