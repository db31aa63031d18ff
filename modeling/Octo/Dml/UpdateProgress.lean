import Octo.Dml.Update

/-!
# Progress of an UPDATE

While an UPDATE scans its table, the rows that it has rewritten are at the places of their images,
and all other rows are as they were. `Updated` says so for the set of keys that are done, together
with what the local variables have recorded. One rewrite of a row that waits adds its key to the
set; here it is essential that the PRIMARY KEY constraint lets a row move to a free place only, so
that no image is ever recorded at the place of a row that waits.
-/
namespace Octo.Dml

open Kleene Sweep UniqueIndex Finset UpdateStatement ColumnValues Or

variable {Text Node : Type} [LinearOrder Text] [OrderBot Text] {table : TableDefinition Text Node}
  {update : UpdateStatement table} {source key : List Text} {node : Node}

/-! ## One rewrite -/

variable {row : Row Text} {values : ColumnValues Text} {newKey other : List Text} {newNode : Node}
  {sibling : ScanPlan table} {state after : UpdateState Text Node}

theorem UpdateStatement.setsKey_assignedValues
    (evaluated : assignedValues table row update.assignments = .ok values) :
    values.setsKey = update.setsKey := by
  have columns := congrArg (List.any · Column.isKey) (map_fst_assignedValues evaluated)
  simpa [ColumnValues.setsKey, setsKey, Function.comp_def] using columns

theorem UpdateStatement.nodup_of_assignedValues (update : UpdateStatement table)
    (evaluated : assignedValues table row update.assignments = .ok values) :
    (values.map Prod.fst).Nodup := by
  rw [map_fst_assignedValues evaluated]
  exact update.columns_nodup

/-- A hidden key column keeps its value. -/
theorem UpdateStatement.setsKey_eq_false (update : UpdateStatement table)
    (hidden : table.hasHiddenColumn = true) : update.setsKey = false := by
  rw [setsKey, List.any_eq_false]
  intro assignment member
  rw [table.isKey_eq_false hidden (update.column_mem assignment member)]
  exact Bool.false_ne_true

/-- Where the image of a row is stored, and the value of its node. -/
def UpdateStatement.storedImage (update : UpdateStatement table) (key : List Text)
    (node : Node) : Except (DmlError Text) (List Text × Node) :=
  match assignedValues table (table.readRow key node) update.assignments with
  | .error error => .error error
  | .ok values => .ok (values.updatedKey key, values.updatedNode table.format node)

theorem UpdateStatement.exists_values_of_storedImage
    (stored : update.storedImage key node = .ok (newKey, newNode)) :
    ∃ values, assignedValues table (table.readRow key node) update.assignments = .ok values ∧
      newKey = values.updatedKey key ∧ newNode = values.updatedNode table.format node := by
  unfold storedImage at stored
  split at stored
  case h_1 => cases stored
  case h_2 values evaluated =>
    obtain ⟨rfl, rfl⟩ := Prod.mk.inj (Except.ok.inj stored)
    exact ⟨values, evaluated, rfl, rfl⟩

/-- What a successful `tmpl_update_record_in_table` has done. -/
structure Rewrites (update : UpdateStatement table) (sibling : ScanPlan table)
    (key : List Text) (node : Node) (state after : UpdateState Text Node) (newKey : List Text)
    (newNode : Node) : Prop where
  image : update.storedImage key node = .ok (newKey, newNode)
  lookup : ∀ other, after.store.data.lookup other =
    if other = newKey then some newNode
    else if other = key then none
    else state.store.data.lookup other
  free : newKey ≠ key → newKey ∉ state.store.data
  stays : update.setsKey = false → newKey = key
  upd : after.upd =
    if update.isUpdateKeycolOrXref sibling then insert newKey state.upd else state.upd
  zduplicate : after.zduplicate =
    if update.emitDuplicationCheck then insert key state.zduplicate else state.zduplicate
  rowCount : after.rowCount = state.rowCount + 1
  counter : after.store.counter = state.store.counter
  reindexed : ∀ values,
    assignedValues table (table.readRow key node) update.assignments = .ok values →
      ∀ name uniqGblname columns,
        UniqueConstraint.unique name uniqGblname columns ∈ table.uniques →
          Reindexed (tuple (table.readRow key node).value columns)
            (tuple (values.updatedValue (table.readRow key node)) columns)
            (state.store.indexes uniqGblname) (after.store.indexes uniqGblname)

theorem tmplUpdateRecordInTable_rewrites
    (passed : tmplUpdateRecordInTable update sibling key node state = .ok after) :
    ∃ newKey newNode, Rewrites update sibling key node state after newKey newNode := by
  unfold tmplUpdateRecordInTable at passed
  dsimp only at passed
  split at passed
  case h_1 => cases passed
  case h_2 values evaluated =>
    split at passed
    case h_1 => cases passed
    case h_2 =>
      split at passed
      case h_1 => cases passed
      case h_2 store constrained =>
        obtain rfl := Except.ok.inj passed
        have maintained := forList_maintained (fun _ _ _ => constraintUpdate_indexStep)
          table.gblnames_nodup constrained
        have sameSets := setsKey_assignedValues evaluated
        have stays : update.setsKey = false → values.updatedKey key = key := fun noKey =>
          updatedKey_of_not_setsKey (sameSets.trans noKey) key
        refine ⟨values.updatedKey key, values.updatedNode table.format node, ?_⟩
        refine ⟨?_, ?_, ?_, stays, rfl, rfl, rfl, maintained.counter, ?_⟩
        · simp [storedImage, evaluated]
        · intro other
          rw [← maintained.data, ← lookup_insert_erase]
          split
          case isTrue => rfl
          case isFalse noKey => rw [stays (by simpa using noKey), insert_erase_self]
        · intro changed
          have setsKey : update.setsKey = true := by
            by_contra noKey
            exact changed (stays (by simpa using noKey))
          have visible : table.hasHiddenColumn = false := by
            by_contra hidden
            rw [update.setsKey_eq_false (by simpa using hidden)] at setsKey
            cases setsKey
          obtain ⟨name, member⟩ := table.exists_primaryKey visible
          exact notMem_data_of_forList_constraintUpdate member (sameSets.trans setsKey) changed
            constrained
        · intro others evaluated'
          obtain rfl := Except.ok.inj (evaluated.symm.trans evaluated')
          exact maintained.reindexed

theorem Rewrites.mem_data (rewrites : Rewrites update sibling key node state after newKey newNode)
    (member : other ∈ after.store.data) : other = newKey ∨ other ∈ state.store.data := by
  obtain ⟨found, isFound⟩ := Finmap.mem_iff.mp member
  rw [rewrites.lookup] at isFound
  split at isFound
  case isTrue same => exact inl same
  case isFalse =>
    split at isFound
    case isTrue => cases isFound
    case isFalse => exact inr (Finmap.mem_of_lookup_eq_some isFound)

/-- The rewrite of a row has no loop that could run out of fuel. -/
theorem tmplUpdateRecordInTable_ne_outOfFuel (update : UpdateStatement table)
    (sibling : ScanPlan table) (key : List Text) (node : Node) (state : UpdateState Text Node) :
    tmplUpdateRecordInTable update sibling key node state ≠ .error .outOfFuel := by
  unfold tmplUpdateRecordInTable
  dsimp only
  split
  case h_1 error failed =>
    rintro ⟨⟩
    exact assignedValues_ne_outOfFuel _ _ _ failed
  case h_2 =>
    split
    case h_1 error failed =>
      rintro ⟨⟩
      exact checkConstraints_ne_outOfFuel _ _ _ _ failed
    case h_2 =>
      split
      case h_1 error failed =>
        rintro ⟨⟩
        obtain ⟨constraint, _, before, step⟩ := exists_of_forList_eq_error failed
        exact constraintUpdate_ne_outOfFuel _ _ _ _ step
      case h_2 => simp

/-! ## The rows that are done -/

section Done

variable (update : UpdateStatement table) (original : Finmap fun _ : List Text => Node)

/-- One of the plans updates the row. -/
def UpdateStatement.Qualifies (row : Row Text) : Prop :=
  ∃ sibling ∈ update.siblings, sibling.Qualifies row

/-- The original row at `source` has its image at `key`. -/
def UpdateStatement.Image (source key : List Text) (node : Node) : Prop :=
  ∃ old, original.lookup source = some old ∧ update.storedImage source old = .ok (key, node)

/-- The state of an UPDATE that has rewritten the rows at the keys `done`. -/
structure Updated (done : Finset (List Text)) (state : UpdateState Text Node) : Prop where
  qualified : ∀ key ∈ done, ∃ node, original.lookup key = some node ∧
    update.Qualifies (table.readRow key node)
  /-- The other rows are as they were. -/
  waiting : ∀ key ∉ done, key ∈ original → state.store.data.lookup key = original.lookup key
  stored : ∀ source ∈ done, ∃ key node, update.Image original source key node ∧
    state.store.data.lookup key = some node
  /-- There is nothing but images and rows that wait. -/
  origin : ∀ key node, state.store.data.lookup key = some node →
    (key ∉ done ∧ original.lookup key = some node) ∨
      ∃ source ∈ done, update.Image original source key node
  injective : ∀ first ∈ done, ∀ second ∈ done, ∀ key firstNode secondNode,
    update.Image original first key firstNode → update.Image original second key secondNode →
      first = second
  /-- No image is at the place of a row that waits. -/
  apart : ∀ source ∈ done, ∀ key node, update.Image original source key node → key ∈ original →
    key ∈ done
  upd_image : ∀ key ∈ state.upd, ∃ source ∈ done, ∃ node, update.Image original source key node
  image_upd : update.setsKey = true → ∀ source ∈ done, ∀ key node,
    update.Image original source key node → key ∈ state.upd
  zduplicate_done : ∀ key ∈ state.zduplicate, key ∈ done
  done_zduplicate : update.emitDuplicationCheck = true → ∀ key ∈ done, key ∈ state.zduplicate
  rowCount : state.rowCount = done.card

end Done

variable {original : Finmap fun _ : List Text => Node}

theorem UpdateStatement.Image.unique {first second : List Text} {firstNode secondNode : Node}
    (firstImage : update.Image original source first firstNode)
    (secondImage : update.Image original source second secondNode) :
    first = second ∧ firstNode = secondNode := by
  obtain ⟨old, found, image⟩ := firstImage
  obtain ⟨_, found', image'⟩ := secondImage
  obtain rfl := Option.some.inj (found.symm.trans found')
  exact Prod.mk.inj (Except.ok.inj (image.symm.trans image'))

section

variable (image : update.Image original source key node)
include image

theorem UpdateStatement.Image.exists_values :
    ∃ old values, original.lookup source = some old ∧
      assignedValues table (table.readRow source old) update.assignments =
        .ok values ∧
      key = values.updatedKey source ∧ node = values.updatedNode table.format old := by
  obtain ⟨old, found, stored⟩ := image
  obtain ⟨values, evaluated, sameKey, sameNode⟩ := exists_values_of_storedImage stored
  exact ⟨old, values, found, evaluated, sameKey, sameNode⟩

theorem UpdateStatement.Image.length_eq : key.length = source.length := by
  obtain ⟨old, values, _, _, rfl, _⟩ := image.exists_values
  exact values.length_updatedKey source

theorem UpdateStatement.Image.eq_of_not_setsKey (noKey : update.setsKey = false) :
    key = source := by
  obtain ⟨old, values, _, evaluated, rfl, _⟩ := image.exists_values
  apply updatedKey_of_not_setsKey
  exact (setsKey_assignedValues evaluated).trans noKey

end

theorem updated_initial (store : Store Text Node) :
    Updated update store.data ∅
      { store := store, upd := ∅, zduplicate := ∅, rowCount := 0 } where
  qualified := by simp
  waiting := fun _ _ _ => rfl
  stored := by simp
  origin := fun key node found => inl ⟨by simp, found⟩
  injective := by simp
  apart := by simp
  upd_image := by simp
  image_upd := by simp
  zduplicate_done := by simp
  done_zduplicate := by simp
  rowCount := rfl

section Rewrite

variable {done : Finset (List Text)}

section

variable (updated : Updated update original done state)
  (rewrites : Rewrites update sibling key node state after newKey newNode)
include updated rewrites

/-- An image of a row that is done is neither at the row to be rewritten nor at its new place. -/
theorem Updated.image_ne (waits : key ∉ done) (found : original.lookup key = some node)
    {image : List Text} {imageNode : Node} (member : source ∈ done)
    (isImage : update.Image original source image imageNode) : image ≠ newKey ∧ image ≠ key := by
  have notOld : image ≠ key := by
    rintro rfl
    exact waits (updated.apart source member image imageNode isImage
      (Finmap.mem_of_lookup_eq_some found))
  refine ⟨?_, notOld⟩
  rintro rfl
  obtain ⟨place, placeNode, isImage', stored⟩ := updated.stored source member
  obtain ⟨rfl, rfl⟩ := isImage.unique isImage'
  exact rewrites.free notOld (Finmap.mem_of_lookup_eq_some stored)

/-- A row that waits is not at the new place of another one. -/
theorem Updated.waiting_ne (waits : other ∉ done) (differs : other ≠ key)
    (isOriginal : other ∈ original) : other ≠ newKey := by
  rintro rfl
  apply rewrites.free differs
  obtain ⟨otherNode, found⟩ := Finmap.mem_iff.mp isOriginal
  exact Finmap.mem_iff.mpr ⟨otherNode, (updated.waiting other waits isOriginal).trans found⟩

/-- One more row is done. -/
theorem Updated.rewrite (waits : key ∉ done) (found : original.lookup key = some node)
    (qualifies : update.Qualifies (table.readRow key node)) :
    Updated update original (insert key done) after := by
  have image : update.Image original key newKey newNode := ⟨node, found, rewrites.image⟩
  constructor
  case qualified =>
    rw [forall_mem_insert]
    exact ⟨⟨node, found, qualifies⟩, updated.qualified⟩
  case waiting =>
    intro other notDone isOriginal
    obtain ⟨differs, notEarlier⟩ := not_or.mp (mt mem_insert.mpr notDone)
    have notNew := updated.waiting_ne rewrites notEarlier differs isOriginal
    rw [rewrites.lookup, if_neg notNew, if_neg differs]
    exact updated.waiting other notEarlier isOriginal
  case stored =>
    rw [forall_mem_insert]
    refine ⟨⟨newKey, newNode, image, by rw [rewrites.lookup, if_pos rfl]⟩, fun source earlier => ?_⟩
    obtain ⟨place, placeNode, isImage, stored⟩ := updated.stored source earlier
    obtain ⟨notNew, notOld⟩ := updated.image_ne rewrites waits found earlier isImage
    refine ⟨place, placeNode, isImage, ?_⟩
    rw [rewrites.lookup, if_neg notNew, if_neg notOld]
    exact stored
  case origin =>
    intro place placeNode stored
    rw [rewrites.lookup] at stored
    split at stored
    case isTrue atNew =>
      obtain rfl := Option.some.inj stored
      exact inr ⟨key, mem_insert_self .., atNew ▸ image⟩
    case isFalse =>
      split at stored
      case isTrue => cases stored
      case isFalse notOld =>
        rcases updated.origin place placeNode stored with ⟨notEarlier, isOriginal⟩ | earlier
        · exact inl ⟨by simp [notOld, notEarlier], isOriginal⟩
        · obtain ⟨source, member, isImage⟩ := earlier
          exact inr ⟨source, mem_insert_of_mem member, isImage⟩
  case injective =>
    intro first firstMember second secondMember place firstNode secondNode firstImage secondImage
    rcases mem_insert.mp firstMember with rfl | firstEarlier
    · rcases mem_insert.mp secondMember with rfl | secondEarlier
      · rfl
      · obtain ⟨notNew, _⟩ := updated.image_ne rewrites waits found secondEarlier secondImage
        exact absurd (firstImage.unique image).1 notNew
    · rcases mem_insert.mp secondMember with rfl | secondEarlier
      · obtain ⟨notNew, _⟩ := updated.image_ne rewrites waits found firstEarlier firstImage
        exact absurd (secondImage.unique image).1 notNew
      · exact updated.injective first firstEarlier second secondEarlier place _ _ firstImage
          secondImage
  case apart =>
    rw [forall_mem_insert]
    refine ⟨fun place placeNode isImage isOriginal => ?_, fun source earlier place node isImage
      isOriginal => mem_insert_of_mem (updated.apart source earlier place node isImage isOriginal)⟩
    obtain ⟨rfl, rfl⟩ := isImage.unique image
    by_contra notDone
    obtain ⟨differs, notEarlier⟩ := not_or.mp (mt mem_insert.mpr notDone)
    exact updated.waiting_ne rewrites notEarlier differs isOriginal rfl
  case upd_image =>
    have earlier (place : List Text) (member : place ∈ state.upd) :
        ∃ source ∈ insert key done, ∃ node, update.Image original source place node := by
      obtain ⟨source, sourceMember, isImage⟩ := updated.upd_image place member
      exact ⟨source, mem_insert_of_mem sourceMember, isImage⟩
    rw [rewrites.upd]
    split
    case isTrue =>
      rw [forall_mem_insert]
      exact ⟨⟨key, mem_insert_self .., newNode, image⟩, earlier⟩
    case isFalse => exact earlier
  case image_upd =>
    intro setsKey
    rw [rewrites.upd, if_pos (by simp [isUpdateKeycolOrXref, setsKey]), forall_mem_insert]
    refine ⟨fun place placeNode isImage => ?_, fun source earlier place placeNode isImage =>
      mem_insert_of_mem (updated.image_upd setsKey source earlier place placeNode isImage)⟩
    rw [(isImage.unique image).1]
    exact mem_insert_self ..
  case zduplicate_done =>
    rw [rewrites.zduplicate]
    split
    case isTrue => exact insert_subset_insert key updated.zduplicate_done
    case isFalse => exact fun other member =>
      mem_insert_of_mem (updated.zduplicate_done other member)
  case done_zduplicate =>
    intro emits
    rw [rewrites.zduplicate, if_pos emits]
    exact insert_subset_insert key (updated.done_zduplicate emits)
  case rowCount =>
    rw [rewrites.rowCount, card_insert_of_notMem waits, updated.rowCount]

end

end Rewrite

end Octo.Dml
