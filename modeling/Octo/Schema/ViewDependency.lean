import Octo.Schema.FunctionDependencies
import Octo.Schema.ViewQuery

/-!
# Storing what a view depends on

CREATE VIEW notes what the query of the view refers to in `%ydboctoViewDependency`, and
`store_view_dependencies` turns the local nodes into nodes of `^%ydboctoocto`, two for each table,
view and function: one for DROP of what the view depends on and one for DROP of the view. As long as
the first one is there, DROP is refused.

The conditions of joins are not searched. Everything is recorded if and only if the conditions,
after the optimizer has moved parts of WHERE clauses into them, refer to nothing that the query does
not refer to elsewhere.
-/
namespace Octo.Schema

open Sweep SubscriptTree Finmap DependencyKind DropFunctionStatement SqlStatement List Dependency
  Subscript

variable {first second : Dependency}

/-- The subtree of a kind of dependencies, in the local variable and under a view. -/
def DependencyKind.subscript : DependencyKind → Subscript
  | .table => .text "tables"
  | .view => .text "views"
  | .function => functions

theorem DependencyKind.subscript_inj {first second : DependencyKind} :
    first.subscript = second.subscript ↔ first = second := by
  cases first <;> cases second <;> simp [subscript, functions, text_inj]

def viewdependency : Subscript := .text "viewdependency"

section Dependencies

variable (functionName : Name → Name)

namespace Dependency

/-- The local node that is set for a dependency. -/
def lvnPath (view : Name) (dependency : Dependency) : List Subscript :=
  [view.1, dependency.kind.subscript, dependency.name.1]

/-- The value of this node: the name of a function, else nothing. -/
def lvnValue (dependency : Dependency) : Subscript :=
  match dependency.kind with
  | .function => (functionName dependency.name).1
  | _ => ⊥

/-- The node that DROP of the table, view or function looks for. -/
def dropNode (view : Name) (dependency : Dependency) : List Subscript :=
  match dependency.kind with
  | .table => [.text "tableviewdependency", dependency.name.1, view.1]
  | .view => [viewdependency, dependency.name.1, .text "fromview", view.1]
  | .function => [.text "functionviewdependency", (functionName dependency.name).1,
      dependency.name.1, view.1]

/-- The node of the view. -/
def viewNode (view : Name) (dependency : Dependency) : List Subscript :=
  match dependency.kind with
  | .table => [viewdependency, view.1, .text "tables", dependency.name.1]
  | .view => [viewdependency, view.1, .text "views", dependency.name.1]
  | .function => [viewdependency, view.1, functions, (functionName dependency.name).1,
      dependency.name.1]

end Dependency

/-- The local variable after the dependencies of a view were set in it. -/
def noteDependencies (view : Name) (dependencies : List Dependency) (lvn : LocalVariable) :
    LocalVariable :=
  dependencies.foldl
    (fun lvn dependency =>
      lvn.insert (dependency.lvnPath view) (dependency.lvnValue functionName))
    lvn

/-! ## Storing -/

section Store

variable (view : Name) (lvn : LocalVariable)

/-- What is stored for a function. -/
def storeFunction (functionHash : Subscript) (nodes : Finset (List Subscript)) :
    Except StoreError (Finset (List Subscript)) :=
  match lvn.lookup [view.1, functions, functionHash] with
  | none => .error .lvundef
  | some name =>
    .ok (insert [viewdependency, view.1, functions, name, functionHash]
      (insert [.text "functionviewdependency", name, functionHash, view.1] nodes))

/-- What is stored for a table. -/
def storeTable (tableName : Subscript) (nodes : Finset (List Subscript)) :
    Except StoreError (Finset (List Subscript)) :=
  .ok (insert [viewdependency, view.1, .text "tables", tableName]
    (insert [.text "tableviewdependency", tableName, view.1] nodes))

/-- What is stored for another view. -/
def storeView (viewName : Subscript) (nodes : Finset (List Subscript)) :
    Except StoreError (Finset (List Subscript)) :=
  .ok (insert [viewdependency, view.1, .text "views", viewName]
    (insert [viewdependency, viewName, .text "fromview", view.1] nodes))

/-- A loop over the local nodes of one kind. -/
def storeKind (kind : DependencyKind)
    (body : Subscript → Finset (List Subscript) → Except StoreError (Finset (List Subscript)))
    (nodes : Finset (List Subscript)) : Except StoreError (Finset (List Subscript)) :=
  forEach .outOfFuel (fun cursor _ => next lvn.keys [view.1, kind.subscript] cursor) body
    (lvn.keys.card + 1) ⊥ nodes

/-- `store_view_dependencies`. -/
def storeViewDependencies (nodes : Finset (List Subscript)) :
    Except StoreError (Finset (List Subscript)) :=
  match storeKind view lvn .function (storeFunction view lvn) nodes with
  | .error error => .error error
  | .ok withFunctions =>
    match storeKind view lvn .table (storeTable view) withFunctions with
    | .error error => .error error
    | .ok withTables => storeKind view lvn .view (storeView view) withTables

end Store

/-- CREATE VIEW, as far as it records what the view depends on. -/
def createView (maxUniqueId : SqlStatement → Nat) (view : Name) (query : SqlStatement)
    (lvn : LocalVariable) (nodes : Finset (List Subscript)) :
    Except StoreError (Finset (List Subscript)) :=
  let dependencies := (query.parseTreeOptimize maxUniqueId).qualifyViewDependency
  storeViewDependencies view (noteDependencies functionName view dependencies lvn) nodes

/-! ## DROP -/

/-- The view because of which DROP TABLE is refused. -/
def dropTableDependsOnView (nodes : Finset (List Subscript)) (tableName : Name) :
    Option Subscript :=
  next nodes [.text "tableviewdependency", tableName.1] ⊥

/-- The view because of which DROP VIEW is refused. -/
def dropViewDependsOnView (nodes : Finset (List Subscript)) (viewName : Name) : Option Subscript :=
  next nodes [viewdependency, viewName.1, .text "fromview"] ⊥

/-- DROP of a table, view or function is refused. -/
def DropRefused (nodes : Finset (List Subscript)) (dependency : Dependency) : Prop :=
  match dependency.kind with
  | .table => (dropTableDependsOnView nodes dependency.name).isSome = true
  | .view => (dropViewDependsOnView nodes dependency.name).isSome = true
  | .function => ∀ ifExistsSpecified, ∃ error,
      DropFunctionStatement.dropFunction ⟨(functionName dependency.name).1, dependency.name.1,
        ifExistsSpecified⟩ nodes false = .error error

/-! ## The local nodes of a view -/

variable {functionName} {view : Name} {dependencies : List Dependency} {lvn : LocalVariable}

theorem Dependency.lvnPath_inj : first.lvnPath view = second.lvnPath view ↔ first = second := by
  obtain ⟨firstKind, firstName⟩ := first
  obtain ⟨secondKind, secondName⟩ := second
  simp [lvnPath, subscript_inj, Subtype.ext_iff]

theorem mem_noteDependencies {path : List Subscript} :
    path ∈ noteDependencies functionName view dependencies lvn ↔
      (∃ dependency ∈ dependencies, path = dependency.lvnPath view) ∨ path ∈ lvn := by
  induction dependencies generalizing lvn with
  | nil => simp [noteDependencies]
  | cons dependency rest ih =>
    rw [noteDependencies, foldl_cons, ← noteDependencies, ih, mem_insert, exists_mem_cons_iff]
    simp only [or_assoc, or_left_comm]

variable {dependency : Dependency} {nodes : Finset (List Subscript)}

theorem lookup_noteDependencies (noted : dependency ∈ dependencies ∨
      lvn.lookup (dependency.lvnPath view) = some (dependency.lvnValue functionName)) :
    (noteDependencies functionName view dependencies lvn).lookup (dependency.lvnPath view) =
      some (dependency.lvnValue functionName) := by
  induction dependencies generalizing lvn with
  | nil => exact noted.resolve_left not_mem_nil
  | cons first rest ih =>
    apply ih
    by_cases same : dependency = first
    · right
      rw [same, lookup_insert]
    · rcases noted with member | found
      · exact .inl ((mem_cons.mp member).resolve_left same)
      · right
        rw [lookup_insert_of_ne _ (mt lvnPath_inj.mp same), found]

/-- The local variable has no nodes of the view yet. -/
def Fresh (view : Name) (lvn : LocalVariable) : Prop :=
  ∀ path ∈ lvn, ¬[view.1] <+: path

theorem mem_subscripts_noteDependencies (fresh : Fresh view lvn) {kind : DependencyKind}
    {sub : Subscript} :
    sub ∈ subscripts (noteDependencies functionName view dependencies lvn).keys
        [view.1, kind.subscript] ↔
      ∃ name, ⟨kind, name⟩ ∈ dependencies ∧ name.1 = sub := by
  rw [mem_subscripts_iff]
  constructor
  · rintro ⟨path, member, starts⟩
    rcases mem_noteDependencies.mp (mem_keys.mp member) with
      ⟨⟨otherKind, name⟩, noted, rfl⟩ | earlier
    · have same := starts.eq_of_length rfl
      simp only [lvnPath, cons_append, nil_append, List.cons.injEq, and_true,
        true_and, subscript_inj] at same
      obtain ⟨rfl, rfl⟩ := same
      exact ⟨name, noted, rfl⟩
    · have startsWithView : [view.1] <+: path :=
        List.IsPrefix.trans ⟨[kind.subscript, sub], rfl⟩ starts
      exact absurd startsWithView (fresh path earlier)
  · rintro ⟨name, noted, rfl⟩
    exact ⟨lvnPath view ⟨kind, name⟩, mem_keys.mpr
      (mem_noteDependencies.mpr (.inl ⟨_, noted, rfl⟩)), prefix_rfl⟩

/-! ## The nodes that are stored -/

theorem forList_insert_two
    {body : Subscript → Finset (List Subscript) → Except StoreError (Finset (List Subscript))}
    {first second : Subscript → List Subscript} {subs : List Subscript}
    (stores : ∀ sub ∈ subs, ∀ nodes, body sub nodes = .ok (insert (first sub)
      (insert (second sub) nodes))) (nodes : Finset (List Subscript)) :
    ∃ after, forList body subs nodes = .ok after ∧ ∀ node, node ∈ after ↔
      node ∈ nodes ∨ ∃ sub ∈ subs, node = first sub ∨ node = second sub := by
  induction subs generalizing nodes with
  | nil => exact ⟨nodes, rfl, by simp⟩
  | cons sub rest ih =>
    obtain ⟨here, later⟩ := forall_mem_cons.mp stores
    obtain ⟨after, passed, mem_after⟩ := ih later (insert (first sub) (insert (second sub) nodes))
    refine ⟨after, by rw [forList, here]; exact passed, fun node => ?_⟩
    rw [mem_after, Finset.mem_insert, Finset.mem_insert, exists_mem_cons_iff]
    simp only [or_assoc, or_left_comm]

/-- A node of the dependency that a loop has found. -/
def DependencyKind.nodeAt (kind : DependencyKind) (nodeOf : Dependency → List Subscript)
    (sub : Subscript) : List Subscript :=
  if named : sub ≠ ⊥ then nodeOf ⟨kind, sub, named⟩ else []

theorem DependencyKind.nodeAt_name (kind : DependencyKind) (nodeOf : Dependency → List Subscript)
    (name : Name) : kind.nodeAt nodeOf name.1 = nodeOf ⟨kind, name⟩ :=
  dif_pos name.2

variable (functionName dependencies) in
/-- A loop stores two nodes for each dependency of its kind. -/
theorem storeKind_eq_ok (fresh : Fresh view lvn) (kind : DependencyKind)
    (body : Subscript → Finset (List Subscript) → Except StoreError (Finset (List Subscript)))
    (stores : ∀ name, ⟨kind, name⟩ ∈ dependencies → ∀ nodes, body name.1 nodes =
      .ok (insert (viewNode functionName view ⟨kind, name⟩)
        (insert (dropNode functionName view ⟨kind, name⟩) nodes)))
    (nodes : Finset (List Subscript)) :
    ∃ after,
      storeKind view (noteDependencies functionName view dependencies lvn) kind body nodes =
        .ok after ∧
      ∀ node, node ∈ after ↔ node ∈ nodes ∨ ∃ name, ⟨kind, name⟩ ∈ dependencies ∧
        (node = viewNode functionName view ⟨kind, name⟩ ∨
          node = dropNode functionName view ⟨kind, name⟩) := by
  have enough : ((subscripts (noteDependencies functionName view dependencies lvn).keys
      [view.1, kind.subscript]).filter (⊥ < ·)).card <
        (noteDependencies functionName view dependencies lvn).keys.card + 1 :=
    Nat.lt_succ_of_le ((Finset.card_filter_le _ _).trans (card_subscripts_le _ _))
  have isName : ∀ sub,
      sub ∈ ((subscripts (noteDependencies functionName view dependencies lvn).keys
        [view.1, kind.subscript]).filter (⊥ < ·)).sort (· ≤ ·) ↔
          ∃ name, ⟨kind, name⟩ ∈ dependencies ∧ name.1 = sub := by
    intro sub
    rw [Finset.mem_sort, Finset.mem_filter, mem_subscripts_noteDependencies fresh,
      and_iff_left_iff_imp]
    rintro ⟨name, -, rfl⟩
    exact bot_lt_iff_ne_bot.mpr name.2
  have storesAll : ∀ sub ∈ ((subscripts (noteDependencies functionName view dependencies lvn).keys
      [view.1, kind.subscript]).filter (⊥ < ·)).sort (· ≤ ·), ∀ nodes, body sub nodes =
        .ok (insert (kind.nodeAt (viewNode functionName view) sub)
          (insert (kind.nodeAt (dropNode functionName view) sub) nodes)) := by
    intro sub member otherNodes
    obtain ⟨name, noted, rfl⟩ := (isName sub).mp member
    rw [nodeAt_name, nodeAt_name]
    exact stores name noted otherNodes
  obtain ⟨after, passed, mem_after⟩ := forList_insert_two storesAll nodes
  refine ⟨after, ?_, fun node => ?_⟩
  · rw [storeKind, forEach_next _ _ _ enough, passed]
  · rw [mem_after]
    apply or_congr_right
    constructor
    · rintro ⟨sub, member, isNode⟩
      obtain ⟨name, noted, rfl⟩ := (isName sub).mp member
      rw [nodeAt_name, nodeAt_name] at isNode
      exact ⟨name, noted, isNode⟩
    · rintro ⟨name, noted, isNode⟩
      refine ⟨name.1, (isName name.1).mpr ⟨name, noted, rfl⟩, ?_⟩
      rwa [nodeAt_name, nodeAt_name]

/-- Both nodes of each dependency are stored, and nothing else. -/
theorem storeViewDependencies_eq_ok (fresh : Fresh view lvn) (nodes : Finset (List Subscript)) :
    ∃ after,
      storeViewDependencies view (noteDependencies functionName view dependencies lvn) nodes =
        .ok after ∧
      ∀ node, node ∈ after ↔ node ∈ nodes ∨ ∃ dependency ∈ dependencies,
        node = dependency.viewNode functionName view ∨
          node = dependency.dropNode functionName view := by
  have storesFunction : ∀ functionHash, ⟨.function, functionHash⟩ ∈ dependencies → ∀ nodes,
      storeFunction view (noteDependencies functionName view dependencies lvn) functionHash.1
        nodes =
        .ok (insert (viewNode functionName view ⟨.function, functionHash⟩)
          (insert (dropNode functionName view ⟨.function, functionHash⟩) nodes)) := by
    intro functionHash noted nodes
    have found : (noteDependencies functionName view dependencies lvn).lookup
        [view.1, functions, functionHash.1] = some (functionName functionHash).1 :=
      lookup_noteDependencies (.inl noted)
    simp only [storeFunction, found]
    rfl
  obtain ⟨withFunctions, storedFunctions, mem_withFunctions⟩ :=
    storeKind_eq_ok functionName dependencies fresh .function _ storesFunction nodes
  obtain ⟨withTables, storedTables, mem_withTables⟩ :=
    storeKind_eq_ok functionName dependencies fresh .table (storeTable view)
      (fun _ _ _ => rfl) withFunctions
  obtain ⟨after, storedViews, mem_after⟩ :=
    storeKind_eq_ok functionName dependencies fresh .view (storeView view)
      (fun _ _ _ => rfl) withTables
  refine ⟨after, ?_, fun node => ?_⟩
  · rw [storeViewDependencies, storedFunctions]
    dsimp only
    rw [storedTables]
    exact storedViews
  · rw [mem_after, mem_withTables, mem_withFunctions, or_assoc, or_assoc]
    apply or_congr_right
    constructor
    · rintro (⟨name, noted, isNode⟩ | ⟨name, noted, isNode⟩ | ⟨name, noted, isNode⟩)
      all_goals exact ⟨_, noted, isNode⟩
    · rintro ⟨⟨kind, name⟩, noted, isNode⟩
      cases kind with
      | function => exact .inl ⟨name, noted, isNode⟩
      | table => exact .inr (.inl ⟨name, noted, isNode⟩)
      | view => exact .inr (.inr ⟨name, noted, isNode⟩)

/-! ## What is recorded cannot be dropped -/

theorem isSome_next (path : List Subscript) {sub : Name}
    (member : path ++ [sub.1] ∈ nodes) : (next nodes path ⊥).isSome = true := by
  cases found : next nodes path ⊥ with
  | none =>
    have present : sub.1 ∈ subscripts nodes path :=
      mem_subscripts_iff.mpr ⟨_, member, prefix_rfl⟩
    exact absurd (bot_lt_iff_ne_bot.mpr sub.2) (next_eq_none found present)
  | some _ => rfl

/-- DROP is refused as long as its node is there; a function has to be there, too. -/
theorem dropRefused_of_dropNode_mem (recorded : dependency.dropNode functionName view ∈ nodes)
    (isDefined : dependency.kind = .function →
      lengthNode (functionName dependency.name).1 dependency.name.1 ∈ nodes) :
    DropRefused functionName nodes dependency := by
  obtain ⟨kind, name⟩ := dependency
  cases kind with
  | table => exact isSome_next [.text "tableviewdependency", name.1] recorded
  | view => exact isSome_next [viewdependency, name.1, .text "fromview"] recorded
  | function =>
    intro ifExistsSpecified
    have onView := isSome_next
      [.text "functionviewdependency", (functionName name).1, name.1] recorded
    have present : ∃ node ∈ nodes, [functions, (functionName name).1, name.1] <+: node :=
      ⟨_, isDefined rfl, ⟨_, rfl⟩⟩
    obtain ⟨found, isFound⟩ := Option.isSome_iff_exists.mp onView
    have exists_dependent : ∃ error, dependent
        ⟨(functionName name).1, name.1, ifExistsSpecified⟩ nodes = some error := by
      unfold dependent
      split
      · exact ⟨_, rfl⟩
      · split
        · exact ⟨_, rfl⟩
        · exact ⟨_, by rw [isFound]; rfl⟩
    obtain ⟨error, isError⟩ := exists_dependent
    exact ⟨error, by simp [dropFunction, present, isError]⟩

/-- Both nodes of a dependency are there, and DROP is refused as long as nothing is removed. -/
structure RecordedDependency (functionName : Name → Name) (view : Name)
    (nodes : Finset (List Subscript)) (dependency : Dependency) : Prop where
  viewNode_mem : dependency.viewNode functionName view ∈ nodes
  dropNode_mem : dependency.dropNode functionName view ∈ nodes
  refused : ∀ later, nodes ⊆ later → DropRefused functionName later dependency

theorem Dependency.viewNode_inj :
    first.viewNode functionName view = second.viewNode functionName view ↔ first = second := by
  obtain ⟨firstKind, firstName⟩ := first
  obtain ⟨secondKind, secondName⟩ := second
  cases firstKind <;> cases secondKind <;>
    simp [viewNode, text_inj, Subtype.ext_iff]
  rintro same
  rw [Subtype.ext same]

theorem Dependency.viewNode_ne_dropNode :
    first.viewNode functionName view ≠ second.dropNode functionName view := by
  obtain ⟨firstKind, firstName⟩ := first
  obtain ⟨secondKind, secondName⟩ := second
  cases firstKind <;> cases secondKind <;>
    simp [viewNode, dropNode, viewdependency, text_inj]

end Dependencies

/-- CREATE VIEW records everything that the query of the view refers to, so that it cannot be
dropped, if and only if the conditions of joins refer to nothing that is not found elsewhere. -/
theorem recorded_createView_iff (functionName : Name → Name) (maxUniqueId : SqlStatement → Nat)
    (view : Name) (query : SqlStatement) (lvn : {lvn : LocalVariable // Fresh view lvn})
    (nodes : Finset (List Subscript))
    (isNew : ∀ dependency : Dependency, dependency.viewNode functionName view ∉ nodes)
    (areDefined : ∀ functionHash, ⟨.function, functionHash⟩ ∈ query.occurrences →
      lengthNode (functionName functionHash).1 functionHash.1 ∈ nodes) :
    ∃ after, createView functionName maxUniqueId view query lvn nodes = .ok after ∧
      ((∀ dependency ∈ query.occurrences,
          RecordedDependency functionName view after dependency) ↔
        ∀ dependency ∈ (query.parseTreeOptimize maxUniqueId).onConditions,
          dependency ∈ (query.parseTreeOptimize maxUniqueId).elsewhere) := by
  rw [← qualifyViewDependency_eq_elsewhere]
  obtain ⟨after, stored, mem_after⟩ := storeViewDependencies_eq_ok lvn.2 nodes
  refine ⟨after, stored, ?_⟩
  constructor
  · intro recorded dependency inCondition
    have occurs : dependency ∈ query.occurrences := by
      rw [← mem_occurrences_parseTreeOptimize maxUniqueId, mem_occurrences_iff]
      exact .inr inCondition
    rcases (mem_after _).mp (recorded dependency occurs).viewNode_mem with
      earlier | ⟨other, found, isViewNode | isDropNode⟩
    · exact absurd earlier (isNew dependency)
    · rwa [Dependency.viewNode_inj.mp isViewNode]
    · exact absurd isDropNode Dependency.viewNode_ne_dropNode
  · intro covered dependency occurs
    have found : dependency ∈ (query.parseTreeOptimize maxUniqueId).qualifyViewDependency := by
      rw [← mem_occurrences_parseTreeOptimize maxUniqueId, mem_occurrences_iff] at occurs
      exact occurs.elim id (covered dependency)
    have dropNode_mem : dependency.dropNode functionName view ∈ after :=
      (mem_after _).mpr (.inr ⟨dependency, found, .inr rfl⟩)
    refine ⟨(mem_after _).mpr (.inr ⟨dependency, found, .inl rfl⟩), dropNode_mem, ?_⟩
    intro later grows
    refine dropRefused_of_dropNode_mem (grows dropNode_mem) fun isFunction => grows ?_
    obtain ⟨kind, name⟩ := dependency
    obtain rfl : kind = .function := isFunction
    exact (mem_after _).mpr (.inl (areDefined name occurs))

/-! ## Two views -/

/-- A name that is not a number. -/
def Name.ofLetters (letters : String) : Name :=
  ⟨.text letters, Subscript.text_ne_bot letters⟩

/-- `samevalue(n1.id)`. -/
def samevalueOfId : SqlStatement :=
  .functionCall (.ofLetters "%ydboctoFN1") (.columnList (.columnAlias 1) .null)

/-- `SELECT item FROM names n1 INNER JOIN names n2 ON condition`. -/
def selectFromNames (item condition : SqlStatement) : SqlStatement :=
  .select (.columnListAlias (.columnList item .null) .null)
    (.join .noJoin 1 (.tableAlias (.createTable (.ofLetters "names"))) .null
      (.join .innerJoin 2 (.tableAlias (.createTable (.ofLetters "names"))) condition .null))
    .null .null .null .null

/-- The only function is `samevalue`. -/
def samevalueNode : Finset (List Subscript) :=
  {lengthNode (.text "samevalue") (.text "%ydboctoFN1")}

/-- The view of `SELECT samevalue(n1.id) FROM names n1 INNER JOIN names n2 ON n1.id = n2.id`. -/
theorem recorded_createView_selectList :
    let query := selectFromNames samevalueOfId (.binary (.columnAlias 1) (.columnAlias 2))
    ∃ after, createView (fun _ => .ofLetters "samevalue") (fun _ => 1) (.ofLetters "v1") query ∅
        samevalueNode = .ok after ∧
      ∀ dependency ∈ query.occurrences,
        RecordedDependency (fun _ => .ofLetters "samevalue") (.ofLetters "v1") after
          dependency := by
  obtain ⟨after, created, recorded_iff⟩ := recorded_createView_iff
    (fun _ => .ofLetters "samevalue") (fun _ => 1) (.ofLetters "v1")
    (selectFromNames samevalueOfId (.binary (.columnAlias 1) (.columnAlias 2)))
    ⟨∅, fun path member => (notMem_empty member).elim⟩ samevalueNode
    (by
      rintro ⟨kind, name⟩
      cases kind <;>
        simp [Dependency.viewNode, samevalueNode, lengthNode, Subscript.text_inj])
    (by
      intro functionHash occurs
      obtain rfl : functionHash = .ofLetters "%ydboctoFN1" := by
        simpa [selectFromNames, samevalueOfId, occurrences] using occurs
      exact Finset.mem_singleton_self _)
  exact ⟨after, created, recorded_iff.mpr (by decide)⟩

/-- The view of `SELECT n1.id FROM names n1 INNER JOIN names n2 ON samevalue(n1.id) = n2.id` does
not keep the function from being dropped. -/
theorem dropFunction_createView_onCondition :
    let query := selectFromNames (.columnAlias 1) (.binary samevalueOfId (.columnAlias 2))
    ⟨.function, .ofLetters "%ydboctoFN1"⟩ ∈ query.occurrences ∧
      ∃ after, createView (fun _ => .ofLetters "samevalue") (fun _ => 1) (.ofLetters "v1") query ∅
          samevalueNode = .ok after ∧
        dropFunction ⟨.text "samevalue", .text "%ydboctoFN1", false⟩ after
          false = .ok (kill after [functions, .text "samevalue", .text "%ydboctoFN1"]) := by
  refine ⟨by decide, insert [viewdependency, .text "v1", .text "tables", .text "names"]
    (insert [.text "tableviewdependency", .text "names", .text "v1"] samevalueNode), ?_, ?_⟩
  all_goals decide +kernel

end Octo.Schema
