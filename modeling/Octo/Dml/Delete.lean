import Octo.Dml.Constraint
import Octo.Dml.ScanPlan

/-!
# DELETE

A DELETE scans its table with one plan for each disjunct of the WHERE clause and removes rows during
the scan. Rows do not move, and those that are gone are not met again, so that the check for rows
that another plan has removed never applies. All plans together remove the rows that meet the WHERE
clause, and no other ones.
-/
namespace Octo.Dml

open Kleene Sweep Finset

variable {Text Node : Type} [LinearOrder Text] [OrderBot Text] {table : TableDefinition Text Node}

/-- A DELETE statement with its plans. -/
structure DeleteStatement (table : TableDefinition Text Node) where
  siblings : List (ScanPlan table)
  loops_length : ∀ sibling ∈ siblings,
    sibling.loops.length = table.numKeys + if sibling.xref.isSome then 1 else 0

/-- What the plans of a DELETE share. -/
structure DeleteState (Text Node : Type) where
  store : Store Text Node
  /-- The subscripts of `%ydboctozduplicate`. -/
  zduplicate : Finset (List Text)
  rowCount : Nat

/-- Several plans check whether another one has removed the row. -/
def DeleteStatement.emitDuplicationCheck (delete : DeleteStatement table) : Bool :=
  decide (1 < delete.siblings.length)

/-- `tmpl_delete_record_from_table`. -/
def tmplDeleteRecordFromTable (delete : DeleteStatement table) (key : List Text) (node : Node)
    (state : DeleteState Text Node) : Except (DmlError Text) (DeleteState Text Node) :=
  match forList (constraintDelete (table.readRow key node)) table.uniques state.store with
  | .error error => .error error
  | .ok store =>
    .ok
      { store := { store with data := store.data.erase key }
        zduplicate :=
          if delete.emitDuplicationCheck then insert key state.zduplicate else state.zduplicate
        rowCount := state.rowCount + 1 }

/-- What `tmpl_tablejoin_body` emits inside of the loops. -/
def deleteBody (delete : DeleteStatement table) (sibling : ScanPlan table) (path : List Text)
    (state : DeleteState Text Node) : Except (DmlError Text) (DeleteState Text Node) :=
  let key := sibling.keyOf path
  if delete.emitDuplicationCheck && decide (key ∈ state.zduplicate) then .ok state
  else
    match state.store.data.lookup key with
    | none => .error .gvundef
    | some node =>
      if sibling.remaining (table.readRow key node) = .true then
        tmplDeleteRecordFromTable delete key node state
      else .ok state

/-- The scan of one plan. -/
def ScanPlan.deleteScan (delete : DeleteStatement table) (fuel : Nat) (sibling : ScanPlan table) :
    KeyScan Text (DeleteState Text Node) (DmlError Text) where
  paths := fun state => sibling.paths state.store.data
  body := deleteBody delete sibling
  fuel := fuel
  exhausted := .outOfFuel

open ScanPlan

/-- `tmpl_delete_from` for all plans: the local variable is killed before the first one. -/
def tmplDeleteFrom (delete : DeleteStatement table) (fuel : Nat) (store : Store Text Node) :
    Except (DmlError Text) (DeleteState Text Node) :=
  forList (fun sibling => (sibling.deleteScan delete fuel).scanKeys sibling.loops [])
    delete.siblings { store := store, zduplicate := ∅, rowCount := 0 }

/-! ## One row -/

/-- What the removal of a row does. It never fails. -/
structure Removes (table : TableDefinition Text Node) (key : List Text) (node : Node)
    (before after : Store Text Node) : Prop where
  data : after.data = before.data.erase key
  counter : after.counter = before.counter
  reindexed : ∀ name uniqGblname columns,
    UniqueConstraint.unique name uniqGblname columns ∈ table.uniques →
      UniqueIndex.Reindexed (tuple (table.readRow key node).value columns) none
        (before.indexes uniqGblname) (after.indexes uniqGblname)

omit [OrderBot Text] in
theorem forList_constraintDelete_isOk (row : Row Text) (constraints : List UniqueConstraint)
    (store : Store Text Node) :
    ∃ after, forList (constraintDelete row) constraints store = .ok after := by
  induction constraints generalizing store with
  | nil => exact ⟨store, rfl⟩
  | cons constraint rest ih =>
    cases constraint with
    | primaryKey name => exact ih store
    | unique name uniqGblname columns => exact ih _

theorem tmplDeleteRecordFromTable_removes (delete : DeleteStatement table) (key : List Text)
    (node : Node) (state : DeleteState Text Node) :
    ∃ after, tmplDeleteRecordFromTable delete key node state = .ok after ∧
      Removes table key node state.store after.store ∧
      after.zduplicate ⊆ insert key state.zduplicate := by
  obtain ⟨store, constrained⟩ :=
    forList_constraintDelete_isOk (table.readRow key node) table.uniques state.store
  have maintained := forList_maintained (fun _ _ _ => constraintDelete_indexStep)
    table.gblnames_nodup constrained
  rw [tmplDeleteRecordFromTable, constrained]
  refine ⟨_, rfl, ⟨?_, maintained.counter, maintained.reindexed⟩, ?_⟩
  · simp only [maintained.data]
  · split
    case isTrue => exact subset_rfl
    case isFalse => exact subset_insert _ _

/-! ## The rows that are gone -/

section Gone

variable (delete : DeleteStatement table) (original : Finmap fun _ : List Text => Node)

/-- One of the plans removes the row. -/
def DeleteStatement.Qualifies (row : Row Text) : Prop :=
  ∃ sibling ∈ delete.siblings, sibling.Qualifies row

/-- The state of a DELETE that has removed the rows at the keys `done`. -/
structure Deleted (keep : Store Text Node → Prop) (done : Finset (List Text))
    (state : DeleteState Text Node) : Prop where
  qualified : ∀ key ∈ done, ∃ node, original.lookup key = some node ∧
    delete.Qualifies (table.readRow key node)
  lookup : ∀ key, state.store.data.lookup key =
    if key ∈ done then none else original.lookup key
  zduplicate_subset : state.zduplicate ⊆ done
  kept : keep state.store

/-- What is kept by the removal of a row that is in the table. -/
def KeepsRemovals (table : TableDefinition Text Node) (keep : Store Text Node → Prop) : Prop :=
  ∀ before after key node, keep before → before.data.lookup key = some node →
    Removes table key node before after → keep after

/-- The invariant of a scan that started when the rows at `before` were gone. -/
structure DeleteInv (keep : Store Text Node → Prop) (sibling : ScanPlan table)
    (before : Finset (List Text)) (handled : Set (List Text)) (done : Finset (List Text))
    (state : DeleteState Text Node) : Prop where
  deleted : Deleted delete original keep done state
  before_subset : before ⊆ done
  handled_eq : handled = pathsOf table original sibling {key | key ∈ done ∧ key ∉ before}

variable {delete original} {keep : Store Text Node → Prop} {sibling : ScanPlan table}
  {before done : Finset (List Text)} {handled : Set (List Text)} {state : DeleteState Text Node}
  {key : List Text}

/-- A row that is still there is an original one. -/
theorem Deleted.lookup_eq_some (deleted : Deleted delete original keep done state)
    {node : Node} (found : state.store.data.lookup key = some node) :
    key ∉ done ∧ original.lookup key = some node := by
  rw [deleted.lookup] at found
  split at found
  case isTrue => cases found
  case isFalse waits => exact ⟨waits, found⟩

/-- The scan of a plan removes the rows that are left and meet its condition. -/
def deleteContract (delete : DeleteStatement table)
    (original : Finmap fun _ : List Text => Node) (keep : Store Text Node → Prop)
    (sibling : ScanPlan table) (before : Finset (List Text)) :
    Contract Text (DeleteState Text Node) (DmlError Text) where
  paths := fun state => sibling.paths state.store.data
  reach := sibling.paths original
  targets := scanTargets table original sibling before
  Inv := fun handled state =>
    ∃ done, DeleteInv delete original keep sibling before handled done state
  exhausted := .outOfFuel
  paths_subset := by
    rintro handled state ⟨done, inv⟩ full member
    obtain ⟨key, node, found, rfl⟩ := ScanPlan.mem_paths_iff.mp member
    exact ScanPlan.mem_paths_iff.mpr ⟨key, node, (inv.deleted.lookup_eq_some found).2, rfl⟩
  present := by
    rintro handled state ⟨done, inv⟩ _ ⟨key, ⟨notBefore, _⟩, node, found, rfl⟩ notHandled
    rw [inv.handled_eq, mem_pathsOf_iff found] at notHandled
    have waits : key ∉ done := fun isDone => notHandled ⟨isDone, notBefore⟩
    refine ScanPlan.mem_paths_iff.mpr ⟨key, node, ?_, rfl⟩
    rw [inv.deleted.lookup, if_neg waits, found]

/-- The state after one more removal. -/
theorem DeleteInv.remove (inv : DeleteInv delete original keep sibling before handled done state)
    (member : sibling ∈ delete.siblings) (keeps : KeepsRemovals table keep)
    {node : Node} {after : DeleteState Text Node} (found : state.store.data.lookup key = some node)
    (qualifies : sibling.Qualifies (table.readRow key node))
    (removes : Removes table key node state.store after.store)
    (recorded : after.zduplicate ⊆ insert key state.zduplicate) :
    DeleteInv delete original keep sibling before
      (insert (sibling.path (table.readRow key node)) handled) (insert key done) after := by
  obtain ⟨waits, isOriginal⟩ := inv.deleted.lookup_eq_some found
  constructor
  case deleted =>
    constructor
    case qualified =>
      rw [forall_mem_insert]
      exact ⟨⟨node, isOriginal, sibling, member, qualifies⟩, inv.deleted.qualified⟩
    case lookup =>
      intro other
      rw [removes.data]
      by_cases same : other = key
      · subst same
        rw [Finmap.lookup_erase, if_pos (mem_insert_self ..)]
      · rw [Finmap.lookup_erase_ne same, inv.deleted.lookup]
        simp only [mem_insert, same, false_or]
    case zduplicate_subset =>
      exact recorded.trans (insert_subset_insert _ inv.deleted.zduplicate_subset)
    case kept => exact keeps _ _ key node inv.deleted.kept found removes
  case before_subset => exact inv.before_subset.trans (subset_insert _ _)
  case handled_eq =>
    rw [inv.handled_eq]
    exact insert_pathsOf isOriginal fun earlier => waits (inv.before_subset earlier)

section

variable (member : sibling ∈ delete.siblings)
  (lengths : ∀ key ∈ original, key.length = table.numKeys) (keeps : KeepsRemovals table keep)
include member lengths keeps

/-- The body of the loops, at the subscripts of a row. -/
theorem handlesAt_deleteBody {full : List Text} (admitted : full ∈ Admitted sibling.loops []) :
    (deleteContract delete original keep sibling before).HandlesAt full {full}
      (deleteBody delete sibling full) := by
  rintro handled state ⟨done, inv⟩ apart ⟨present, isPresent, starts⟩
  obtain ⟨key, node, found, rfl⟩ := mem_paths_iff.mp isPresent
  obtain ⟨waits, isOriginal⟩ := inv.deleted.lookup_eq_some found
  have admits : List.Forall₂ KeyLoop.Admits sibling.loops full := by
    obtain ⟨_, admits, rfl⟩ := admitted
    exact admits
  obtain rfl : full = sibling.path (table.readRow key node) := by
    apply starts.eq_of_length
    exact length_eq_of_admits (delete.loops_length sibling member) admits
      (lengths key (Finmap.mem_of_lookup_eq_some isOriginal))
  have sameKey : sibling.keyOf (sibling.path (table.readRow key node)) = key := by simp
  unfold deleteBody
  rw [sameKey]
  dsimp only
  split
  case isTrue duplicate =>
    have recorded : key ∈ state.zduplicate := by simpa using (Bool.and_eq_true_iff.mp duplicate).2
    exact absurd (inv.deleted.zduplicate_subset recorded) waits
  case isFalse =>
    rw [found]
    dsimp only
    split
    case isTrue meets =>
      obtain ⟨after, passed, removes, recorded⟩ :=
        tmplDeleteRecordFromTable_removes delete key node state
      rw [passed]
      refine ⟨_, ⟨_, inv.remove member keeps found ⟨admits, meets⟩ removes recorded⟩,
        Set.subset_insert _ _, ?_, ?_⟩
      · rw [Set.union_singleton]
      · rintro _ ⟨_, rfl⟩
        exact Set.mem_insert _ _
    case isFalse fails =>
      refine Contract.reaches_ok ⟨done, inv⟩ fun full target here => ?_
      obtain rfl := Set.mem_singleton_iff.mp here
      obtain ⟨_, old, isOriginal', meets⟩ := exists_of_mem_scanTargets target
      obtain rfl := Option.some.inj (isOriginal.symm.trans isOriginal')
      exact absurd meets fails

/-- One plan removes the rows that are left and meet its condition. -/
theorem scan_deleted {fuel : Nat} (enough : original.keys.card < fuel)
    (deleted : Deleted delete original keep before state) :
    (sibling.deleteScan delete fuel).scanKeys sibling.loops [] state ≠ .error .outOfFuel ∧
    ∀ after, (sibling.deleteScan delete fuel).scanKeys sibling.loops [] state = .ok after →
      ∃ done, Deleted delete original keep done after ∧ before ⊆ done ∧
        ∀ key node, original.lookup key = some node →
          sibling.Qualifies (table.readRow key node) → key ∈ done := by
  have follows : (sibling.deleteScan delete fuel).Follows
      (deleteContract delete original keep sibling before) :=
    ⟨rfl, rfl, (card_paths_le _).trans_lt enough⟩
  have inv : DeleteInv delete original keep sibling before ∅ before state := by
    refine ⟨deleted, subset_rfl, ?_⟩
    simp [pathsOf]
  have reaches := handles_scanKeys follows
    (loops_ne_nil (delete.loops_length sibling member))
    (fun full admitted => handlesAt_deleteBody member lengths keeps admitted)
    ∅ state ⟨before, inv⟩ (Set.empty_disjoint _)
  constructor
  · intro failed
    rw [failed] at reaches
    exact reaches rfl
  · intro after passed
    rw [passed] at reaches
    obtain ⟨handled, ⟨done, final⟩, _, _, covers⟩ := reaches
    refine ⟨done, final.deleted, final.before_subset, fun key node found qualifies => ?_⟩
    by_cases earlier : key ∈ before
    · exact final.before_subset earlier
    · have isHandled := covers ⟨mem_scanTargets found earlier qualifies.2, _, qualifies.1, rfl⟩
      rw [final.handled_eq, mem_pathsOf_iff found] at isHandled
      exact isHandled.1

end

/-- All plans together remove the rows that meet the condition of one of them. -/
theorem tmplDeleteFrom_deleted {store : Store Text Node}
    (lengths : ∀ key ∈ store.data, key.length = table.numKeys) (keeps : KeepsRemovals table keep)
    {fuel : Nat} (enough : store.data.keys.card < fuel) (kept : keep store) :
    tmplDeleteFrom delete fuel store ≠ .error .outOfFuel ∧
    ∀ final, tmplDeleteFrom delete fuel store = .ok final →
      keep final.store ∧ ∀ key node, final.store.data.lookup key = some node ↔
        store.data.lookup key = some node ∧ ¬ delete.Qualifies (table.readRow key node) := by
  have start : Deleted delete store.data keep ∅
      { store := store, zduplicate := ∅, rowCount := 0 } :=
    ⟨by simp, by simp, by simp, kept⟩
  obtain ⟨noFuelError, reaches⟩ := forList_accumulates
    (fun rest done state => (∀ sibling ∈ rest, sibling ∈ delete.siblings) ∧
      Deleted delete store.data keep done state)
    (qualifying table store.data)
    (fun sibling rest done state ⟨subset, deleted⟩ => by
      obtain ⟨noFuelError, reaches⟩ :=
        scan_deleted (subset sibling (List.mem_cons_self ..)) lengths keeps enough deleted
      refine ⟨noFuelError, fun after passed => ?_⟩
      obtain ⟨done', deleted', grows, covers⟩ := reaches after passed
      refine ⟨done', grows, ⟨List.forall_mem_of_forall_mem_cons subset, deleted'⟩, ?_⟩
      rintro key ⟨node, found, qualifies⟩
      exact covers key node found qualifies)
    ⟨fun _ member => member, start⟩
  refine ⟨noFuelError, fun final passed => ?_⟩
  obtain ⟨done, _, ⟨_, deleted⟩, covers⟩ := reaches final passed
  refine ⟨deleted.kept, fun key node => ?_⟩
  rw [deleted.lookup]
  constructor
  · intro found
    split at found
    case isTrue => cases found
    case isFalse waits =>
      refine ⟨found, ?_⟩
      rintro ⟨sibling, member, qualifies⟩
      exact waits (covers sibling member ⟨node, found, qualifies⟩)
  · rintro ⟨found, fails⟩
    have waits : key ∉ done := by
      intro isDone
      obtain ⟨other, found', qualifies⟩ := deleted.qualified key isDone
      obtain rfl := Option.some.inj (found.symm.trans found')
      exact fails qualifies
    rw [if_neg waits, found]

end Gone

end Octo.Dml
