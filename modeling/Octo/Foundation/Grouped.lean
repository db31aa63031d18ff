import Mathlib

/-!
# Grouped lists

A list of labels is grouped when the occurrences of every label stand next to each other. Whether it
is depends on the order of its runs only: the length of a run does not matter.
-/
namespace Octo.Foundation

open List

variable {Label : Type}
variable {label : Label} {rest : List Label}

/-- Behind the run of a label, the label does not come again. -/
def Grouped [DecidableEq Label] : List Label → Prop
  | [] => True
  | label :: rest => label ∉ rest.dropWhile (· == label) ∧ Grouped rest

/-- The list is a run of the label with other labels around it. -/
def HasRun (labels : List Label) (label : Label) : Prop :=
  ∃ before run behind, labels = before ++ run ++ behind ∧ (∀ other ∈ run, other = label) ∧
    label ∉ before ++ behind

theorem HasRun.tail {first : Label} (has : HasRun (first :: rest) label) :
    HasRun rest label := by
  obtain ⟨before, run, behind, split, same, apart⟩ := has
  cases before with
  | cons other before =>
    exact ⟨before, run, behind, (cons.inj split).2, same,
      fun member => apart (mem_cons_of_mem other member)⟩
  | nil =>
    cases run with
    | cons other run =>
      exact ⟨[], run, behind, (cons.inj split).2, forall_mem_of_forall_mem_cons same, apart⟩
    | nil =>
      cases behind with
      | cons other behind =>
        exact ⟨[], [], behind, (cons.inj split).2, same,
          fun member => apart (mem_cons_of_mem other member)⟩
      | nil => cases split

variable [DecidableEq Label]

theorem HasRun.not_mem_dropWhile (has : HasRun (label :: rest) label) :
    label ∉ rest.dropWhile (· == label) := by
  obtain ⟨before, run, behind, split, same, apart⟩ := has
  cases before with
  | cons other before =>
    obtain rfl := (cons.inj split).1
    exact absurd mem_cons_self apart
  | nil =>
    cases run with
    | nil =>
      rw [nil_append] at split
      rw [← split] at apart
      exact absurd mem_cons_self apart
    | cons other run =>
      have rest_eq : rest = run ++ behind := (cons.inj split).2
      have run_dropped : (run ++ behind).dropWhile (· == label) =
          behind.dropWhile (· == label) := by
        rw [dropWhile_append, if_pos]
        rw [List.isEmpty_iff, List.dropWhile_eq_nil_iff]
        intro label member
        exact beq_iff_eq.mpr (same label (mem_cons_of_mem other member))
      rw [rest_eq, run_dropped]
      exact fun member => apart ((dropWhile_sublist _).subset member)

/-- A list is grouped when it has a run of every label. -/
theorem grouped_iff_hasRun (labels : List Label) :
    Grouped labels ↔ ∀ label, HasRun labels label := by
  induction labels with
  | nil => exact iff_of_true trivial fun label => ⟨[], [], [], rfl, by simp, by simp⟩
  | cons first rest ih =>
    rw [Grouped, ih]
    constructor
    · rintro ⟨apart, runs⟩ label
      by_cases same : label = first
      · subst same
        refine ⟨[], label :: rest.takeWhile (· == label), rest.dropWhile (· == label), ?_, ?_, ?_⟩
        · rw [nil_append, cons_append, takeWhile_append_dropWhile]
        · intro other member
          obtain rfl | inRest := mem_cons.mp member
          · rfl
          · exact beq_iff_eq.mp (@mem_takeWhile_imp _ (· == label) rest other inRest)
        · exact apart
      · obtain ⟨before, run, behind, split, own, others⟩ := runs label
        refine ⟨first :: before, run, behind, congrArg (first :: ·) split, own, fun member => ?_⟩
        obtain rfl | inRest := mem_cons.mp member
        · exact same rfl
        · exact others inRest
    · intro runs
      exact ⟨(runs first).not_mem_dropWhile, fun label => (runs label).tail⟩

/-! ## The length of a run -/

variable (before behind : List Label)

theorem mem_dropWhile_repeat {other : Label} :
    other ∈ (before ++ label :: label :: behind).dropWhile (· == other) ↔
      other ∈ (before ++ label :: behind).dropWhile (· == other) := by
  induction before with
  | nil =>
    by_cases same : label = other
    · simp [same]
    · simp [same]
  | cons first before ih =>
    by_cases same : first = other
    · simpa [same] using ih
    · simp [same]

theorem grouped_repeat :
    Grouped (before ++ label :: label :: behind) ↔ Grouped (before ++ label :: behind) := by
  induction before with
  | nil => simp [Grouped]
  | cons first before ih =>
    rw [cons_append, cons_append, Grouped, Grouped, ih, mem_dropWhile_repeat]

/-- A run counts as one occurrence of its label. -/
theorem grouped_run {run : List Label} (some : run ≠ []) (same : ∀ other ∈ run, other = label) :
    Grouped (before ++ run ++ behind) ↔ Grouped (before ++ label :: behind) := by
  induction run with
  | nil => exact absurd rfl some
  | cons first run ih =>
    obtain rfl := same first mem_cons_self
    cases run with
    | nil => rw [append_assoc, singleton_append]
    | cons second run =>
      obtain rfl := same second (mem_cons_of_mem _ mem_cons_self)
      rw [← ih (cons_ne_nil _ _) (forall_mem_of_forall_mem_cons same), append_assoc, append_assoc,
        cons_append, cons_append, grouped_repeat]

end Octo.Foundation
