import Mathlib

/-!
# Indexes of unique entries

A table gives some of its keys an entry, and an index is the set of all entries. The index is
faithful if it has the entries and nothing else and if no entry is given to two keys. A write
changes the entry of one key and may move it to another key; it takes the old entry out of the index
and refuses a new entry that is still in it.

What is read back from the table may differ from the entry that was put into the index. A write
keeps the index faithful if and only if it does not.
-/
namespace UniqueIndex

variable {Key Entry : Type}
variable {value : Entry}

/-- The index has the entries of a table, and each entry has one key. -/
structure Indexes (index : Finset Entry) (entry : Key → Option Entry) : Prop where
  mem_iff : ∀ value, value ∈ index ↔ ∃ key, entry key = some value
  unique : ∀ key other value, entry key = some value → entry other = some value → key = other

/-- The index of an empty table. -/
theorem indexes_empty : Indexes (∅ : Finset Entry) fun _ : Key => none := by
  constructor <;> simp

/-- How a write changes an index: not at all, or by taking out the old entry and putting in the new
one, which was not in it any more. -/
inductive Reindexed (old new : Option Entry) (before after : Finset Entry) : Prop
  | unchanged (same : old = new) (sameIndex : after = before)
  | replaced
      (mem_iff : ∀ value, value ∈ after ↔ value ∈ before ∧ some value ≠ old ∨ some value = new)
      (free : ∀ value, some value = new → value ∈ before → some value = old)

variable {index after : Finset Entry} {entry : Key → Option Entry} {oldKey newKey : Key}
  {new : Option Entry} (indexes : Indexes index entry)
  (free : newKey ≠ oldKey → entry newKey = none)
  (reindexed : Reindexed (entry oldKey) new index after) {key : Key}

namespace Indexes

include indexes in
/-- The entry of one key is not the entry of another one. -/
theorem ne_of_ne (other : key ≠ oldKey) (isEntry : entry key = some value) :
    some value ≠ entry oldKey :=
  fun same => other (indexes.unique key oldKey value isEntry same.symm)

include indexes free reindexed in
/-- The index after a write has the entries of the other keys and the new entry. -/
theorem mem_after_iff (value : Entry) :
    value ∈ after ↔
      (∃ key, key ≠ newKey ∧ key ≠ oldKey ∧ entry key = some value) ∨ some value = new := by
  have others : (∃ key, key ≠ newKey ∧ key ≠ oldKey ∧ entry key = some value) ↔
      value ∈ index ∧ some value ≠ entry oldKey := by
    rw [indexes.mem_iff]
    constructor
    · rintro ⟨key, _, notOld, isEntry⟩
      exact ⟨⟨key, isEntry⟩, indexes.ne_of_ne notOld isEntry⟩
    · rintro ⟨⟨key, isEntry⟩, notOldEntry⟩
      have notOld : key ≠ oldKey := by
        rintro rfl
        exact notOldEntry isEntry.symm
      refine ⟨key, ?_, notOld, isEntry⟩
      rintro rfl
      rw [free notOld] at isEntry
      cases isEntry
  rw [others]
  cases reindexed with
  | replaced mem_iff _ => exact mem_iff value
  | unchanged same sameIndex =>
    rw [sameIndex, ← same]
    constructor
    · intro member
      by_cases isOld : some value = entry oldKey
      · exact Or.inr isOld
      · exact Or.inl ⟨member, isOld⟩
    · rintro (⟨member, _⟩ | isOld)
      · exact member
      · exact (indexes.mem_iff value).mpr ⟨oldKey, isOld.symm⟩

include indexes reindexed in
/-- The new entry is not the entry of a key that the write leaves alone. -/
theorem new_ne (notOld : key ≠ oldKey) (isEntry : entry key = some value) :
    some value ≠ new := by
  intro isNew
  refine indexes.ne_of_ne notOld isEntry ?_
  cases reindexed with
  | unchanged same _ => exact isNew.trans same.symm
  | replaced _ free => exact free value isNew ((indexes.mem_iff value).mpr ⟨key, isEntry⟩)

end Indexes

variable [DecidableEq Key] {read : Option Entry}

/-- The entries after the row at `oldKey` was moved to `newKey`. -/
def moved (entry : Key → Option Entry) (oldKey newKey : Key) (new : Option Entry) :
    Key → Option Entry :=
  Function.update (Function.update entry oldKey none) newKey new

@[simp]
theorem moved_newKey : moved entry oldKey newKey new newKey = new :=
  Function.update_self ..

theorem moved_eq_some_iff (other : key ≠ newKey) :
    moved entry oldKey newKey new key = some value ↔ key ≠ oldKey ∧ entry key = some value := by
  rw [moved, Function.update_of_ne other]
  by_cases same : key = oldKey
  · subst same
    simp
  · simp [same]

include indexes free reindexed in
/-- A write keeps the index faithful if and only if what is read back at the new key is what was put
into the index. -/
theorem Indexes.moved_iff :
    Indexes after (moved entry oldKey newKey read) ↔ read = new := by
  constructor
  · intro indexes'
    have readIsNew : ∀ value, read = some value → some value = new := by
      intro value isRead
      have member : value ∈ after := (indexes'.mem_iff value).mpr ⟨newKey, by simp [isRead]⟩
      rcases (indexes.mem_after_iff free reindexed value).mp member with
        ⟨key, notNew, notOld, isEntry⟩ | isNew
      · refine absurd (indexes'.unique key newKey value ?_ (by simp [isRead])) notNew
        exact (moved_eq_some_iff notNew).mpr ⟨notOld, isEntry⟩
      · exact isNew
    have newIsRead : ∀ value, new = some value → some value = read := by
      intro value isNew
      have member : value ∈ after :=
        (indexes.mem_after_iff free reindexed value).mpr (Or.inr isNew.symm)
      obtain ⟨key, isEntry⟩ := (indexes'.mem_iff value).mp member
      by_cases atNew : key = newKey
      · subst atNew
        simpa using isEntry.symm
      · obtain ⟨notOld, isEntry⟩ := (moved_eq_some_iff atNew).mp isEntry
        exact absurd isNew.symm (indexes.new_ne reindexed notOld isEntry)
    cases isRead : read with
    | some value => exact readIsNew value isRead
    | none =>
      cases isNew : new with
      | none => rfl
      | some value => exact absurd (newIsRead value isNew) (by simp [isRead])
  · rintro rfl
    constructor
    · intro value
      rw [indexes.mem_after_iff free reindexed]
      constructor
      · rintro (⟨key, notNew, notOld, isEntry⟩ | isNew)
        · exact ⟨key, (moved_eq_some_iff notNew).mpr ⟨notOld, isEntry⟩⟩
        · exact ⟨newKey, by simp [isNew]⟩
      · rintro ⟨key, isEntry⟩
        by_cases atNew : key = newKey
        · subst atNew
          exact Or.inr (by simpa using isEntry.symm)
        · exact Or.inl ⟨key, atNew, (moved_eq_some_iff atNew).mp isEntry⟩
    · intro key other value isEntry isOther
      have atNew : ∀ key, key ≠ newKey → moved entry oldKey newKey read key = some value →
          moved entry oldKey newKey read newKey ≠ some value := by
        intro key notNew isEntry isNew
        obtain ⟨notOld, isEntry⟩ := (moved_eq_some_iff notNew).mp isEntry
        exact indexes.new_ne reindexed notOld isEntry (by simpa using isNew.symm)
      by_cases keyNew : key = newKey
      · subst keyNew
        by_contra differ
        exact atNew other (Ne.symm differ) isOther isEntry
      · by_cases otherNew : other = newKey
        · subst otherNew
          exact absurd isOther (atNew key keyNew isEntry)
        · exact indexes.unique key other value ((moved_eq_some_iff keyNew).mp isEntry).2
            ((moved_eq_some_iff otherNew).mp isOther).2

end UniqueIndex
