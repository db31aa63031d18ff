import Octo.Dml.UpdateProgress

/-!
# The scans of an UPDATE

The scan of a plan meets the rows that wait and the images of the rows that are done. The contract
of the scan is to rewrite the rows that wait and meet the condition of the plan, each of them once.
An image is passed over: by `%ydboctoUPD` if rows can move under the scan, by `%ydboctozduplicate`
if another plan has rewritten the row, and else because the row is still where it was and the loops
have passed it. A row that waits is never passed over, since what the local variables record are
images, and rows that are done.
-/
namespace Octo.Dml

open Kleene Sweep Finset Finmap ScanPlan Set UpdateStatement

variable {Text Node : Type} {table : TableDefinition Text Node}
  [LinearOrder Text] [OrderBot Text]
variable {full : List Text}

/-- The subscripts under which the scan meets the image of a row. -/
def ScanPlan.imagePath (sibling : ScanPlan table) (update : UpdateStatement table)
    (original : Finmap fun _ : List Text => Node) (key : List Text) : List Text :=
  match original.lookup key with
  | none => key
  | some node =>
    match update.storedImage key node with
    | .error _ => key
    | .ok (newKey, newNode) => sibling.path (table.readRow newKey newNode)

/-- The subscripts that the scan can ever meet. -/
def ScanPlan.reach (sibling : ScanPlan table) (update : UpdateStatement table)
    (original : Finmap fun _ : List Text => Node) : Finset (List Text) :=
  sibling.paths original ∪
    original.keys.image (sibling.imagePath update original)

theorem ScanPlan.card_reach_le (sibling : ScanPlan table)
    (update : UpdateStatement table) (original : Finmap fun _ : List Text => Node) :
    (sibling.reach update original).card ≤ 2 * original.keys.card := by
  calc (sibling.reach update original).card
      ≤ (sibling.paths original).card +
          (original.keys.image (sibling.imagePath update original)).card :=
        card_union_le _ _
    _ ≤ original.keys.card + original.keys.card :=
        Nat.add_le_add (sibling.card_paths_le _) card_image_le
    _ = 2 * original.keys.card := (Nat.two_mul _).symm

/-! ## The contract of a scan -/

section Scan

variable (update : UpdateStatement table) (original : Finmap fun _ : List Text => Node)
  (sibling : ScanPlan table)

/-- The invariant of a scan that started when the rows at `before` were done. -/
structure ScanInv (before : Finset (List Text)) (keep : Store Text Node → Prop)
    (handled : Set (List Text)) (done : Finset (List Text)) (state : UpdateState Text Node) :
    Prop where
  updated : Updated update original done state
  before_subset : before ⊆ done
  handled_eq : handled = pathsOf table original sibling {key | key ∈ done ∧ key ∉ before}
  /-- Rows that can move under the scan are marked. -/
  marked : update.isUpdateKeycolOrXref sibling = true → ∀ source ∈ done, source ∉ before →
    ∀ key node, update.Image original source key node → key ∈ state.upd
  kept : keep state.store

variable {update original sibling} {before done : Finset (List Text)}
  {keep : Store Text Node → Prop} {handled : Set (List Text)} {state : UpdateState Text Node}
  (inv : ScanInv update original sibling before keep handled done state)

include inv

theorem ScanInv.paths_subset :
    sibling.paths state.store.data ⊆ sibling.reach update original := by
  intro full member
  obtain ⟨key, node, found, rfl⟩ := mem_paths_iff.mp member
  rcases inv.updated.origin key node found with
    ⟨_, isOriginal⟩ | ⟨source, _, old, isOriginal, image⟩
  · exact mem_union_left _ (mem_paths_iff.mpr ⟨key, node, isOriginal, rfl⟩)
  · refine mem_union_right _ (mem_image.mpr ⟨source, ?_, ?_⟩)
    · exact mem_keys.mpr (mem_of_lookup_eq_some isOriginal)
    · simp [imagePath, isOriginal, image]

theorem ScanInv.present (target : full ∈ scanTargets table original sibling before)
    (notHandled : full ∉ handled) : full ∈ sibling.paths state.store.data := by
  obtain ⟨key, ⟨notBefore, _⟩, node, found, rfl⟩ := target
  have notDone : key ∉ done := by
    intro isDone
    rw [inv.handled_eq, mem_pathsOf_iff found] at notHandled
    exact notHandled ⟨isDone, notBefore⟩
  refine mem_paths_iff.mpr ⟨key, node, ?_, rfl⟩
  exact (inv.updated.waiting key notDone (mem_of_lookup_eq_some found)).trans found

/-- The scan of a plan rewrites the rows that wait and meet its condition. -/
def scanContract (update : UpdateStatement table)
    (original : Finmap fun _ : List Text => Node) (sibling : ScanPlan table)
    (before : Finset (List Text)) (keep : Store Text Node → Prop) :
    Contract Text (UpdateState Text Node) (DmlError Text) where
  paths := fun state => sibling.paths state.store.data
  reach := sibling.reach update original
  targets := scanTargets table original sibling before
  Inv := fun handled state =>
    ∃ done, ScanInv update original sibling before keep handled done state
  exhausted := .outOfFuel
  paths_subset := fun ⟨_, inv⟩ => inv.paths_subset
  present := fun ⟨_, inv⟩ _ target notHandled => inv.present target notHandled

/-! ## The body of the loops -/

/-- What is kept by each rewrite of an original row. -/
def KeepsRewrites (update : UpdateStatement table)
    (original : Finmap fun _ : List Text => Node) (keep : Store Text Node → Prop) : Prop :=
  ∀ sibling ∈ update.siblings, ∀ done state after key node, Updated update original done state →
    keep state.store → key ∉ done → original.lookup key = some node →
    sibling.Qualifies (table.readRow key node) →
    tmplUpdateRecordInTable update sibling key node state = .ok after → keep after.store

/-- A target that is done has been handled. -/
theorem ScanInv.mem_handled (target : full ∈ scanTargets table original sibling before)
    (isDone : sibling.keyOf full ∈ done) : full ∈ handled := by
  obtain ⟨key, ⟨notBefore, _⟩, node, found, rfl⟩ := target
  rw [inv.handled_eq, mem_pathsOf_iff found]
  exact ⟨by simpa using isDone, notBefore⟩

/-- Every image of a row that is done is passed over. -/
theorem ScanInv.passedOver (alone : update.emitDuplicationCheck = false → before = ∅)
    {source key : List Text} {node : Node}
    (isDone : source ∈ done) (image : update.Image original source key node)
    (notHandled : sibling.path (table.readRow key node) ∉ handled) :
    update.isUpdateKeycolOrXref sibling = true ∧ key ∈ state.upd ∨
      update.emitDuplicationCheck = true ∧ key ∈ state.zduplicate := by
  cases setsKey : update.setsKey with
  | true =>
    refine Or.inl ⟨by simp [isUpdateKeycolOrXref, setsKey], ?_⟩
    exact inv.updated.image_upd setsKey source isDone key node image
  | false =>
    obtain rfl := image.eq_of_not_setsKey setsKey
    by_cases earlier : key ∈ before
    · have emits : update.emitDuplicationCheck = true := by
        by_contra single
        simp [alone (by simpa using single)] at earlier
      exact Or.inr ⟨emits, inv.updated.done_zduplicate emits key isDone⟩
    · cases crossReferenced : sibling.xref with
      | some column =>
        have guarded : update.isUpdateKeycolOrXref sibling = true := by
          simp [isUpdateKeycolOrXref, crossReferenced]
        exact Or.inl ⟨guarded, inv.marked guarded key isDone earlier key node image⟩
      | none =>
        -- The row has not moved, so that its subscripts are among those already handled.
        obtain ⟨old, _, found, _⟩ := image.exists_values
        refine absurd ?_ notHandled
        rw [inv.handled_eq]
        exact ⟨key, ⟨isDone, earlier⟩, old, found, by
          simp [path, crossReferenced]⟩

/-- The state after one more rewrite. -/
theorem ScanInv.rewrite {key newKey : List Text} {node newNode : Node}
    {after : UpdateState Text Node} (waits : key ∉ done) (found : original.lookup key = some node)
    (qualifies : update.Qualifies (table.readRow key node))
    (rewrites : Rewrites update sibling key node state after newKey newNode)
    (kept : keep after.store) :
    ScanInv update original sibling before keep
      (insert (sibling.path (table.readRow key node)) handled) (insert key done) after where
  updated := inv.updated.rewrite rewrites waits found qualifies
  before_subset := inv.before_subset.trans (subset_insert _ _)
  handled_eq := by
    rw [inv.handled_eq]
    exact insert_pathsOf found fun earlier => waits (inv.before_subset earlier)
  marked := by
    intro guarded source isDone sourceNotBefore place placeNode image
    rw [rewrites.upd, if_pos guarded]
    rcases mem_insert.mp isDone with rfl | earlier
    · obtain ⟨rfl, rfl⟩ := image.unique ⟨node, found, rewrites.image⟩
      exact mem_insert_self ..
    · exact mem_insert_of_mem
        (inv.marked guarded source earlier sourceNotBefore place placeNode image)
  kept := kept

omit inv

section

variable (member : sibling ∈ update.siblings)
  (lengths : ∀ key ∈ original, key.length = table.numKeys)
  (alone : update.emitDuplicationCheck = false → before = ∅)
  (keeps : KeepsRewrites update original keep)
include member lengths alone keeps

/-- The body of the loops, at the subscripts of a row. -/
theorem handlesAt_updateBody (admitted : full ∈ Admitted sibling.loops []) :
    (scanContract update original sibling before keep).HandlesAt full {full}
      (updateBody update sibling full) := by
  rintro handled state ⟨done, inv⟩ apart ⟨present, isPresent, starts⟩
  obtain ⟨key, node, found, rfl⟩ := mem_paths_iff.mp isPresent
  have keyLength : key.length = table.numKeys := by
    rcases inv.updated.origin key node found with ⟨_, isOriginal⟩ | ⟨source, isDone, image⟩
    · exact lengths key (mem_of_lookup_eq_some isOriginal)
    · obtain ⟨old, _, isOriginal, _⟩ := image.exists_values
      exact image.length_eq.trans (lengths source (mem_of_lookup_eq_some isOriginal))
  have admittedPath : List.Forall₂ KeyLoop.Admits sibling.loops full := by
    obtain ⟨_, admits, rfl⟩ := admitted
    exact admits
  obtain rfl : full = sibling.path (table.readRow key node) := by
    apply starts.eq_of_length
    exact length_eq_of_admits (update.loops_length sibling member) admittedPath keyLength
  have notHandled : sibling.path (table.readRow key node) ∉ handled :=
    disjoint_singleton_right.mp apart
  have atKey : ∀ target ∈ scanTargets table original sibling before,
      target ∈ ({sibling.path (table.readRow key node)} : Set (List Text)) →
      ∃ old, original.lookup key = some old ∧
        sibling.remaining (table.readRow key old) = .true := by
    rintro _ target rfl
    exact (exists_of_mem_scanTargets target).2
  have pass : (key ∈ original → key ∈ done) →
      (scanContract update original sibling before keep).Reaches
        {sibling.path (table.readRow key node)} handled (.ok state) := by
    intro isDone
    refine Contract.reaches_ok ⟨done, inv⟩ fun full target here => inv.mem_handled target ?_
    obtain ⟨old, isOriginal, _⟩ := atKey full target here
    obtain rfl := mem_singleton_iff.mp here
    simpa using isDone (mem_of_lookup_eq_some isOriginal)
  have sameKey : sibling.keyOf (sibling.path (table.readRow key node)) = key := by simp
  unfold updateBody
  rw [sameKey]
  dsimp only
  split
  case isTrue recorded =>
    apply pass
    intro isOriginal
    obtain ⟨_, inUpd⟩ := by simpa using recorded
    obtain ⟨source, isDone, imageNode, image⟩ := inv.updated.upd_image key inUpd
    exact inv.updated.apart source isDone key imageNode image isOriginal
  case isFalse notRecorded =>
    split
    case isTrue duplicate =>
      obtain ⟨_, inZduplicate⟩ := by simpa using duplicate
      exact pass fun _ => inv.updated.zduplicate_done key inZduplicate
    case isFalse notDuplicate =>
      rw [found]
      dsimp only
      rcases inv.updated.origin key node found with ⟨waits, isOriginal⟩ | ⟨source, isDone, image⟩
      · split
        case isTrue meets =>
          have qualifies : sibling.Qualifies (table.readRow key node) :=
            ⟨admittedPath, meets⟩
          cases result : tmplUpdateRecordInTable update sibling key node state with
          | error error =>
            rintro rfl
            exact tmplUpdateRecordInTable_ne_outOfFuel update sibling key node state result
          | ok after =>
            obtain ⟨newKey, newNode, rewrites⟩ := tmplUpdateRecordInTable_rewrites result
            have kept := keeps sibling member done state after key node inv.updated inv.kept waits
              isOriginal qualifies result
            refine ⟨_, ⟨_, inv.rewrite waits isOriginal ⟨sibling, member, qualifies⟩ rewrites kept⟩,
              subset_insert _ _, ?_, ?_⟩
            · rw [union_singleton]
            · rintro _ ⟨_, rfl⟩
              exact mem_insert _ _
        case isFalse fails =>
          refine Contract.reaches_ok ⟨done, inv⟩ fun full target here => ?_
          obtain ⟨old, isOriginal', meets⟩ := atKey full target here
          obtain rfl := Option.some.inj (isOriginal.symm.trans isOriginal')
          exact absurd meets fails
      · rcases inv.passedOver alone isDone image notHandled with recorded | duplicate
        · exact absurd (by simpa using recorded) notRecorded
        · exact absurd (by simpa using duplicate) notDuplicate

/-- One plan rewrites the rows that wait and meet its condition, and does not run out of fuel. -/
theorem scan_updated {fuel : Nat} (enough : 2 * original.keys.card < fuel)
    (updated : Updated update original before state) (kept : keep state.store) :
    (sibling.scan update fuel).scanKeys sibling.loops [] state ≠ .error .outOfFuel ∧
    ∀ after, (sibling.scan update fuel).scanKeys sibling.loops [] state = .ok after →
      ∃ done, Updated update original done after ∧ keep after.store ∧ before ⊆ done ∧
        ∀ key node, original.lookup key = some node →
          sibling.Qualifies (table.readRow key node) → key ∈ done := by
  have follows : (sibling.scan update fuel).Follows
      (scanContract update original sibling before keep) :=
    ⟨rfl, rfl, (sibling.card_reach_le update original).trans_lt enough⟩
  have inv : ScanInv update original sibling before keep ∅ before state := by
    refine ⟨updated, subset_rfl, ?_, fun _ source isDone notBefore => absurd isDone notBefore, kept⟩
    simp [pathsOf]
  have reaches := handles_scanKeys follows
    (loops_ne_nil (update.loops_length sibling member))
    (fun full admitted => handlesAt_updateBody member lengths alone keeps admitted)
    ∅ state ⟨before, inv⟩ (empty_disjoint _)
  constructor
  · intro failed
    rw [failed] at reaches
    exact reaches rfl
  · intro after passed
    rw [passed] at reaches
    obtain ⟨handled, ⟨done, final⟩, _, _, covers⟩ := reaches
    refine ⟨done, final.updated, final.kept, final.before_subset, ?_⟩
    rintro key node found ⟨admits, meets⟩
    by_cases earlier : key ∈ before
    · exact final.before_subset earlier
    · have isHandled := covers ⟨mem_scanTargets found earlier meets, _, admits, rfl⟩
      rw [final.handled_eq, mem_pathsOf_iff found] at isHandled
      exact isHandled.1

end

end Scan

end Octo.Dml
