import Octo.Schema.Catalog

/-!
# DROP TABLE and the functions that the table depends on

DROP TABLE removes the nodes of both families of dependencies with `discardTable`. For each family
it walks with `$QUERY` through the nodes under the table, and at each of them kills this node and
the node under the function that belongs to it. The name of the killed node under the function
replaces the name of the node under the table, so that the walk goes on among the functions. It ends
there unless the function has the name of the table; then it kills nodes of the function.

The nodes of the table are removed exactly if the table calls one function at most in each family,
this function does not have the name of the table, and no name holds a quote.
-/
namespace Octo.Schema

open Sweep SubscriptTree List

variable {nodes : Finset (List Subscript)} {after : Finset (List Subscript)}
  {dtype : DDLDependencyType}

/-- Why the loops of `discardTable` stop. -/
inductive DiscardError where
  /-- `$QUERY` gives the empty name behind the last node, which has no subscripts. -/
  | noCanonicName
  /-- The text that was put together is not the name of the node: a quote ends it, and two of them
  are read as one. -/
  | malformedName
  | outOfFuel
deriving DecidableEq

/-- A name that is read back from between quotes. -/
def Subscript.quotable (name : Subscript) : Bool :=
  match (show Option (ℚ ⊕ String) from name) with
  | some (.inr letters) => decide (Char.ofNat 34 ∉ letters.toList)
  | _ => true

open Subscript Or

/-- `$QSUBSCRIPT(gvn,position)`. -/
def qsubscript (gvn : List Subscript) (position : Nat) : Subscript :=
  gvn.getD (position - 1) ⊥

/-- What the walk takes the subscripts of a node for. -/
def visitedDependency (gvn : List Subscript) : FunctionDependency :=
  ⟨qsubscript gvn 3, qsubscript gvn 4, qsubscript gvn 5⟩

/-- All names that are put between quotes can be. -/
def quotableNode (tableName : Subscript) (dependency : FunctionDependency) : Bool :=
  tableName.quotable && dependency.name.quotable && dependency.functionName.quotable &&
    dependency.functionHash.quotable

/-- The nodes after `gvn` and the node under the function that belongs to it were killed. -/
def killBoth (dtype : DDLDependencyType) (tableName : Subscript) (gvn : List Subscript)
    (nodes : Finset (List Subscript)) : Finset (List Subscript) :=
  kill (kill nodes gvn) (functionNode dtype tableName (visitedDependency gvn))

/-- `FOR  SET gvn=$QUERY(@gvn)  QUIT:$QSUBSCRIPT(gvn,2)'=tableName  DO`. -/
def discardWalk (dtype : DDLDependencyType) (tableName : Subscript) :
    Nat → List Subscript → Finset (List Subscript) →
      Except DiscardError (Finset (List Subscript))
  | 0, _, _ => .error .outOfFuel
  | fuel + 1, cursor, nodes =>
    match query nodes cursor with
    | none => .error .noCanonicName
    | some gvn =>
      if qsubscript gvn 2 = tableName then
        if quotableNode tableName (visitedDependency gvn) then
          discardWalk dtype tableName fuel
            (functionNode dtype tableName (visitedDependency gvn))
            (killBoth dtype tableName gvn nodes)
        else .error .malformedName
      else .ok nodes

/-- One of the two families. There need not be any node under the table. -/
def discardFamily (tableName : Subscript) (dtype : DDLDependencyType)
    (nodes : Finset (List Subscript)) : Except DiscardError (Finset (List Subscript)) :=
  if ∃ node ∈ nodes, [dtype.tableSubscript, tableName] <+: node then
    discardWalk dtype tableName (nodes.card + 1) [dtype.tableSubscript, tableName] nodes
  else .ok nodes

/-- What `discardTable` does to the nodes of dependencies. -/
def discardTable (tableName : Subscript) :
    Finset (List Subscript) → Except DiscardError (Finset (List Subscript)) :=
  forList (discardFamily tableName) [.checkConstraint, .extractFunction]

/-- A node of a dependency of the table, in one of its two places. -/
def Mentions (tableName : Subscript) (node : List Subscript) : Prop :=
  ∃ dtype dependency, node = tableNode dtype tableName dependency ∨
    node = functionNode dtype tableName dependency

/-- The nodes of the dependencies of the table were removed, and no other node. -/
def Discarded (tableName : Subscript) (before after : Finset (List Subscript)) : Prop :=
  ∀ node, node ∈ after ↔ node ∈ before ∧ ¬Mentions tableName node

/-! ## The walk ends -/

theorem killBoth_subset (dtype : DDLDependencyType) (tableName : Subscript) (gvn : List Subscript)
    (nodes : Finset (List Subscript)) : killBoth dtype tableName gvn nodes ⊆ nodes :=
  (kill_subset _ _).trans (kill_subset _ _)

variable {fuel : Nat} {dependency call : FunctionDependency} {tableName : Subscript}

/-- Each step of the walk kills a node that is there, so that the walk comes to an end. -/
theorem discardWalk_ne_outOfFuel (dtype : DDLDependencyType) (tableName : Subscript)
    {cursor : List Subscript} (enough : nodes.card < fuel) :
    discardWalk dtype tableName fuel cursor nodes ≠ .error .outOfFuel := by
  induction fuel generalizing cursor nodes with
  | zero => simp at enough
  | succ fuel ih =>
    unfold discardWalk
    cases found : query nodes cursor with
    | none => simp
    | some gvn =>
      have fewer : (killBoth dtype tableName gvn nodes).card < fuel := by
        have dropped := card_kill_lt (query_eq_some found).1
        have further := Finset.card_le_card
          (kill_subset (kill nodes gvn) (functionNode dtype tableName (visitedDependency gvn)))
        unfold killBoth
        omega
      dsimp only
      split
      · split
        · exact ih fewer
        · simp
      · simp

theorem discardTable_ne_outOfFuel (tableName : Subscript) (nodes : Finset (List Subscript)) :
    discardTable tableName nodes ≠ .error .outOfFuel := by
  intro exhausted
  obtain ⟨dtype, -, before, failed⟩ := exists_of_forList_eq_error exhausted
  unfold discardFamily at failed
  split at failed
  · exact discardWalk_ne_outOfFuel dtype tableName (Nat.lt_succ_self _) failed
  · cases failed

/-! ## Functions with the name of the table

If a function has the name of the table, the walk does not end at the node under the function. It
visits what follows there, at the latest a node of the definition of the function, and kills it.
-/

namespace Catalog

variable (catalog : Catalog) (tableName : Subscript)

/-- A node that had to stay was killed. -/
def Damaged (nodes : Finset (List Subscript)) : Prop :=
  ∃ node ∈ catalog.nodes, ¬Mentions tableName node ∧ node ∉ nodes

variable {catalog tableName}

theorem Damaged.mono {smaller larger : Finset (List Subscript)}
    (damaged : catalog.Damaged tableName larger) (subset : smaller ⊆ larger) :
    catalog.Damaged tableName smaller := by
  obtain ⟨node, present, other, killed⟩ := damaged
  exact ⟨node, present, other, fun member => killed (subset member)⟩

/-- A node that was visited was killed. -/
theorem mentions_of_not_damaged {gvn : List Subscript} (present : gvn ∈ catalog.nodes)
    (undamaged : ¬catalog.Damaged tableName (killBoth dtype tableName gvn nodes)) :
    Mentions tableName gvn := by
  by_contra other
  refine undamaged ⟨gvn, present, other, fun member => ?_⟩
  exact (mem_kill.mp (mem_kill.mp member).1).2 prefix_rfl

end Catalog

/-- A call of a function with the name of the table is still recorded under the table. -/
def NamesakeLeft (tableName : Subscript) (nodes : Finset (List Subscript)) : Prop :=
  ∃ dtype dependency, dependency.functionName = tableName ∧
    tableNode dtype tableName dependency ∈ nodes

/-- Such calls are recorded under the function only while they are recorded under the table. The
walk of a family keeps this for the families from its own one on. -/
def NamesakesMirrored (tableName : Subscript) (dtype : DDLDependencyType)
    (nodes : Finset (List Subscript)) : Prop :=
  ∀ other dependency, dtype.functionSubscript ≤ other.functionSubscript →
    dependency.functionName = tableName → functionNode other tableName dependency ∈ nodes →
      tableNode other tableName dependency ∈ nodes

/-- The walk will visit a node that has to stay. -/
def WillDamage (tableName : Subscript) (nodes : Finset (List Subscript)) (cursor : List Subscript) :
    Prop :=
  ∃ gvn, query nodes cursor = some gvn ∧ qsubscript gvn 2 = tableName ∧ ¬Mentions tableName gvn

/-- The walk is behind the nodes of the families that come after its own one. -/
def Beyond (tableName : Subscript) (dtype : DDLDependencyType) (cursor : List Subscript) : Prop :=
  ∀ other dependency, dtype.functionSubscript < other.functionSubscript →
    tableNode other tableName dependency < cursor

section Families

variable {other : DDLDependencyType}

theorem eq_of_functionSubscript_lt (less : dtype.functionSubscript < other.functionSubscript) :
    dtype = .checkConstraint ∧ other = .extractFunction := by
  cases dtype <;> cases other
  · exact absurd less (lt_irrefl _)
  · exact ⟨rfl, rfl⟩
  · refine absurd less (lt_asymm ?_)
    exact text_lt_text.mpr (by decide)
  · exact absurd less (lt_irrefl _)

theorem beyond_functionNode (dependency : FunctionDependency) :
    Beyond tableName dtype (functionNode dtype tableName dependency) := by
  intro other call less
  obtain ⟨rfl, rfl⟩ := eq_of_functionSubscript_lt less
  exact append_lt_append [] (text_lt_text.mpr (by decide)) _ _

theorem beyond_tableSubscript : Beyond tableName dtype [dtype.tableSubscript, tableName] := by
  intro other call less
  obtain ⟨rfl, rfl⟩ := eq_of_functionSubscript_lt less
  exact append_lt_append [] (text_lt_text.mpr (by decide)) _ _

/-- Under one function the families come in the order of their subscripts. -/
theorem functionSubscript_le_of_lt (sameName : dependency.functionName = call.functionName)
    (sameHash : dependency.functionHash = call.functionHash)
    (less : functionNode dtype tableName dependency < functionNode other tableName call) :
    dtype.functionSubscript ≤ other.functionSubscript := by
  by_contra greater
  refine lt_asymm less ?_
  have reversed := append_lt_append [functions, call.functionName, call.functionHash]
    (not_le.mp greater) [tableName, call.name] [tableName, dependency.name]
  simpa [functionNode, sameName, sameHash] using reversed

end Families

section Step

variable {catalog : Catalog} {cursor gvn : List Subscript}

section

variable {other otherType : DDLDependencyType}
  (present : tableNode other tableName dependency ∈ nodes)
include present

/-- Killing the nodes of one call leaves the other calls recorded under the table. -/
theorem tableNode_mem_killBoth
    (differs : tableNode otherType tableName call ≠ tableNode other tableName dependency) :
    tableNode other tableName dependency ∈
      killBoth dtype tableName (tableNode otherType tableName call) nodes := by
  refine mem_kill.mpr ⟨mem_kill.mpr ⟨present, ?_⟩, not_functions_prefix_tableNode⟩
  exact fun starts => differs (tableNode_prefix_tableNode starts)

/-- Killing nodes under functions leaves all calls recorded under the table. -/
theorem tableNode_mem_killBoth_functionNode :
    tableNode other tableName dependency ∈
      killBoth dtype tableName (functionNode otherType tableName call) nodes :=
  mem_kill.mpr ⟨mem_kill.mpr ⟨present, not_functions_prefix_tableNode⟩,
    not_functions_prefix_tableNode⟩

end

theorem namesakesMirrored_killBoth {other : DDLDependencyType}
    (mirrored : NamesakesMirrored tableName dtype nodes)
    (earlier : other.functionSubscript ≤ dtype.functionSubscript)
    (dependency : FunctionDependency) :
    NamesakesMirrored tableName dtype
      (killBoth dtype tableName (tableNode other tableName dependency) nodes) := by
  intro family call later namesake member
  have before := killBoth_subset _ _ _ _ member
  refine tableNode_mem_killBoth (mirrored family call later namesake before) ?_
  -- The mirror of the node that was visited is killed with it.
  intro same
  obtain ⟨rfl, -, rfl⟩ := tableNode_inj.mp same
  obtain rfl : dtype = other :=
    DDLDependencyType.functionSubscript_inj.mp (le_antisymm later earlier)
  exact (mem_kill.mp member).2 prefix_rfl

/-- Behind a call of a function with the name of the table the walk goes on, and if this was the
last such call, it goes on to a node that has to stay. -/
theorem willDamage_functionNode (namesake : dependency.functionName = tableName)
    (present : lengthNode dependency.functionName dependency.functionHash ∈ nodes)
    (mirrored : NamesakesMirrored tableName dtype nodes) (last : ¬NamesakeLeft tableName nodes) :
    WillDamage tableName nodes (functionNode dtype tableName dependency) := by
  obtain ⟨gvn, found, below⟩ := exists_query present functionNode_lt_lengthNode
  obtain ⟨member, above, -⟩ := query_eq_some found
  have under : [functions, dependency.functionName, dependency.functionHash] <+: gvn :=
    starts_of_between ⟨_, rfl⟩ ⟨_, rfl⟩ above.le below
  refine ⟨gvn, found, ?_, ?_⟩
  · obtain ⟨rest, rfl⟩ := under
    exact namesake
  · rintro ⟨other, call, rfl | rfl⟩
    · exact not_functions_prefix_tableNode under
    · simp only [functionNode, cons_prefix_cons] at under
      obtain ⟨-, sameName, sameHash, -⟩ := under
      have callsNamesake := sameName.symm.trans namesake
      have later := functionSubscript_le_of_lt sameName sameHash above
      exact last ⟨other, call, callsNamesake, mirrored other call later callsNamesake member⟩

theorem discardWalk_subset (walked : discardWalk dtype tableName fuel cursor nodes = .ok after) :
    after ⊆ nodes := by
  induction fuel generalizing cursor nodes with
  | zero => cases walked
  | succ fuel ih =>
    unfold discardWalk at walked
    split at walked
    case h_1 => cases walked
    case h_2 gvn _ =>
      split at walked
      · split at walked
        · exact (ih walked).trans (killBoth_subset _ _ _ _)
        · cases walked
      · cases walked
        exact subset_rfl

section Namesakes

variable (within : nodes ⊆ catalog.nodes) (beyond : Beyond tableName dtype cursor)
  (mirrored : NamesakesMirrored tableName dtype nodes)
  (doomed : NamesakeLeft tableName nodes ∨ WillDamage tableName nodes cursor)
include within beyond mirrored doomed

/-- What one step of the walk leaves, as long as there is no damage. -/
theorem namesakes_killBoth (found : query nodes cursor = some gvn)
    (undamaged : ¬catalog.Damaged tableName (killBoth dtype tableName gvn nodes)) :
    NamesakesMirrored tableName dtype (killBoth dtype tableName gvn nodes) ∧
      (NamesakeLeft tableName (killBoth dtype tableName gvn nodes) ∨
        WillDamage tableName (killBoth dtype tableName gvn nodes)
          (functionNode dtype tableName (visitedDependency gvn))) := by
  obtain ⟨member, above, -⟩ := query_eq_some found
  have mentions := Catalog.mentions_of_not_damaged (within member) undamaged
  obtain ⟨family, call, namesake, isLeft⟩ : NamesakeLeft tableName nodes := by
    rcases doomed with isLeft | ⟨gvn', found', -, others⟩
    · exact isLeft
    · obtain rfl := Option.some.inj (found.symm.trans found')
      exact absurd mentions others
  obtain ⟨other, dependency, rfl | rfl⟩ := mentions
  · have earlier : other.functionSubscript ≤ dtype.functionSubscript := by
      by_contra later
      exact lt_asymm above (beyond other dependency (not_le.mp later))
    have stillMirrored := namesakesMirrored_killBoth mirrored earlier dependency
    refine ⟨stillMirrored, ?_⟩
    by_cases last : NamesakeLeft tableName
        (killBoth dtype tableName (tableNode other tableName dependency) nodes)
    · exact inl last
    · right
      -- The call that was visited was the only one left.
      have same : tableNode other tableName dependency = tableNode family tableName call := by
        by_contra differs
        exact last ⟨family, call, namesake, tableNode_mem_killBoth isLeft differs⟩
      obtain ⟨-, -, rfl⟩ := tableNode_inj.mp same
      refine willDamage_functionNode namesake ?_ stillMirrored last
      by_contra killed
      refine undamaged ⟨_, catalog.defined other tableName dependency (within member), ?_, killed⟩
      rintro ⟨_, _, isNode | isNode⟩
      · simp [lengthNode, tableNode] at isNode
      · simp [lengthNode, functionNode] at isNode
  · constructor
    · intro family' call' later namesake' mirror
      exact tableNode_mem_killBoth_functionNode
        (mirrored family' call' later namesake' (killBoth_subset _ _ _ _ mirror))
    · exact inl ⟨family, call, namesake, tableNode_mem_killBoth_functionNode isLeft⟩

/-- A walk that has a call of a function with the name of the table before it, and ends, leaves this
call or has killed a node that had to stay. -/
theorem namesakes_discardWalk (walked : discardWalk dtype tableName fuel cursor nodes = .ok after) :
    catalog.Damaged tableName after ∨
      (NamesakesMirrored tableName dtype after ∧ NamesakeLeft tableName after) := by
  induction fuel generalizing cursor nodes with
  | zero => cases walked
  | succ fuel ih =>
    unfold discardWalk at walked
    split at walked
    case h_1 => cases walked
    case h_2 gvn found =>
      split at walked
      case isTrue =>
        split at walked
        case isFalse => cases walked
        case isTrue =>
          by_cases damaged : catalog.Damaged tableName (killBoth dtype tableName gvn nodes)
          · exact inl (damaged.mono (discardWalk_subset walked))
          · obtain ⟨stillMirrored, stillDoomed⟩ :=
              namesakes_killBoth within beyond mirrored doomed found damaged
            exact ih ((killBoth_subset _ _ _ _).trans within) (beyond_functionNode _)
              stillMirrored stillDoomed walked
      case isFalse ends =>
        cases walked
        rcases doomed with isLeft | ⟨gvn', found', under, -⟩
        · exact inr ⟨mirrored, isLeft⟩
        · obtain rfl := Option.some.inj (found.symm.trans found')
          exact absurd under ends

end Namesakes

end Step

theorem discardFamily_subset (passed : discardFamily tableName dtype nodes = .ok after) :
    after ⊆ nodes := by
  unfold discardFamily at passed
  split at passed
  · exact discardWalk_subset passed
  · cases passed
    exact subset_rfl

/-- A table that calls a function with its own name is not discarded properly. -/
theorem not_discarded_of_namesake {catalog : Catalog}
    (namesake : NamesakeLeft tableName catalog.nodes)
    (passed : discardTable tableName catalog.nodes = .ok after) :
    ¬Discarded tableName catalog.nodes after := by
  have family : ∀ {dtype : DDLDependencyType} {nodes middle : Finset (List Subscript)},
      nodes ⊆ catalog.nodes → NamesakesMirrored tableName dtype nodes →
      NamesakeLeft tableName nodes → discardFamily tableName dtype nodes = .ok middle →
      catalog.Damaged tableName middle ∨
        (NamesakesMirrored tableName dtype middle ∧ NamesakeLeft tableName middle) := by
    intro dtype nodes middle within mirrored isLeft walked
    unfold discardFamily at walked
    split at walked
    case isTrue =>
      exact namesakes_discardWalk within beyond_tableSubscript mirrored (.inl isLeft) walked
    case isFalse =>
      cases walked
      exact inr ⟨mirrored, isLeft⟩
  have mirrored : NamesakesMirrored tableName .checkConstraint catalog.nodes :=
    fun other call _ _ => (catalog.mirrored other tableName call).mpr
  obtain ⟨middle, first, second⟩ := forList_cons_eq_ok passed
  obtain ⟨final, second, rest⟩ := forList_cons_eq_ok second
  cases rest
  have doomed : catalog.Damaged tableName after ∨ NamesakeLeft tableName after := by
    rcases family subset_rfl mirrored namesake first with damaged | ⟨stillMirrored, isLeft⟩
    · exact inl (damaged.mono (discardFamily_subset second))
    · have fewer : NamesakesMirrored tableName .extractFunction middle := by
        intro other call later
        refine stillMirrored other call (le_trans ?_ later)
        exact (text_lt_text.mpr (by decide)).le
      rcases family (discardFamily_subset first) fewer isLeft second with damaged | ⟨-, isLeft⟩
      · exact inl damaged
      · exact inr isLeft
  intro discarded
  rcases doomed with ⟨node, present, other, killed⟩ | ⟨dtype, call, -, isLeft⟩
  · exact killed ((discarded node).mpr ⟨present, other⟩)
  · exact ((discarded _).mp isLeft).2 ⟨dtype, call, .inl rfl⟩

/-! ## Functions with other names

Here the walk of a family ends behind the first call.
-/

section OneCall

variable {catalog : Catalog} (within : nodes ⊆ catalog.nodes)
include within

/-- The first node that the walk of a family visits is a call of the table. -/
theorem exists_query_tableNode
    (some_under : ∃ node ∈ nodes, [dtype.tableSubscript, tableName] <+: node) :
    ∃ dependency, query nodes [dtype.tableSubscript, tableName] =
      some (tableNode dtype tableName dependency) := by
  have isTableNode : ∀ node ∈ nodes, [dtype.tableSubscript, tableName] <+: node →
      ∃ dependency, node = tableNode dtype tableName dependency := by
    intro node present under
    obtain ⟨otherTable, dependency, rfl⟩ :=
      catalog.eq_tableNode dtype node (within present) (.trans ⟨_, rfl⟩ under)
    obtain rfl : tableName = otherTable := by simpa [tableNode] using under
    exact ⟨dependency, rfl⟩
  obtain ⟨node, present, under⟩ := some_under
  obtain ⟨dependency, rfl⟩ := isTableNode node present under
  have follows : [dtype.tableSubscript, tableName] < tableNode dtype tableName dependency :=
    cons_lt_cons_iff.mpr (.inr ⟨rfl, cons_lt_cons_iff.mpr (.inr ⟨rfl, by simp⟩)⟩)
  obtain ⟨gvn, found, below⟩ := exists_query present follows
  obtain ⟨member, above, -⟩ := query_eq_some found
  obtain ⟨first, rfl⟩ :=
    isTableNode gvn member (starts_of_between prefix_rfl under above.le below)
  exact ⟨first, found⟩

/-- Killing both nodes of a call kills nothing else. -/
theorem mem_killBoth_tableNode {node : List Subscript} :
    node ∈ killBoth dtype tableName (tableNode dtype tableName dependency) nodes ↔
      node ∈ nodes ∧ node ≠ tableNode dtype tableName dependency ∧
        node ≠ functionNode dtype tableName dependency := by
  have tableLeaf : ∀ other ∈ nodes, tableNode dtype tableName dependency <+: other →
      other = tableNode dtype tableName dependency := by
    intro other present starts
    obtain ⟨_, _, rfl⟩ := catalog.eq_tableNode dtype other (within present) (.trans ⟨_, rfl⟩ starts)
    exact (tableNode_prefix_tableNode starts).symm
  have functionLeaf : ∀ other ∈ nodes, functionNode dtype tableName dependency <+: other →
      other = functionNode dtype tableName dependency := by
    intro other present starts
    obtain ⟨_, _, rfl⟩ := catalog.eq_functionNode dtype _ _ other (within present)
      (.trans ⟨_, rfl⟩ starts)
    exact (starts.eq_of_length rfl).symm
  rw [killBoth, kill_eq_erase, kill_eq_erase tableLeaf]
  · simp only [Finset.mem_erase]
    exact ⟨fun ⟨notFunction, notTable, present⟩ => ⟨present, notTable, notFunction⟩,
      fun ⟨present, notTable, notFunction⟩ => ⟨notFunction, notTable, present⟩⟩
  · intro other member
    exact functionLeaf other (kill_subset _ _ member)

variable
  (defined : ∀ dependency, tableNode dtype tableName dependency ∈ nodes →
    lengthNode dependency.functionName dependency.functionHash ∈ nodes)
  (named : ∀ dependency, tableNode dtype tableName dependency ∈ nodes →
    dependency.functionName ≠ tableName)
include defined named

/-- The walk of a family without calls of a function with the name of the table visits the first
call only. -/
theorem discardFamily_cases :
    ((∀ dependency, tableNode dtype tableName dependency ∉ nodes) ∧
      discardFamily tableName dtype nodes = .ok nodes) ∨
    ∃ dependency, tableNode dtype tableName dependency ∈ nodes ∧
      discardFamily tableName dtype nodes =
        if quotableNode tableName dependency then
          .ok (killBoth dtype tableName (tableNode dtype tableName dependency) nodes)
        else .error .malformedName := by
  by_cases some_under : ∃ node ∈ nodes, [dtype.tableSubscript, tableName] <+: node
  · right
    obtain ⟨dependency, found⟩ := exists_query_tableNode within some_under
    have present := (query_eq_some found).1
    refine ⟨dependency, present, ?_⟩
    have stays : lengthNode dependency.functionName dependency.functionHash ∈
        killBoth dtype tableName (tableNode dtype tableName dependency) nodes := by
      rw [mem_killBoth_tableNode within]
      exact ⟨defined dependency present, by simp [lengthNode, tableNode],
        by simp [lengthNode, functionNode]⟩
    have follows : functionNode dtype tableName dependency <
        lengthNode dependency.functionName dependency.functionHash := functionNode_lt_lengthNode
    obtain ⟨gvn, foundNext, below⟩ := exists_query stays follows
    have other : qsubscript gvn 2 ≠ tableName := by
      have under : [functions, dependency.functionName, dependency.functionHash] <+: gvn :=
        starts_of_between ⟨_, rfl⟩ ⟨_, rfl⟩ (query_eq_some foundNext).2.1.le below
      obtain ⟨rest, rfl⟩ := under
      exact named dependency present
    obtain ⟨fuel, isFuel⟩ : ∃ fuel, nodes.card = fuel + 1 :=
      Nat.exists_eq_succ_of_ne_zero (Finset.card_ne_zero_of_mem present)
    have visited : visitedDependency (tableNode dtype tableName dependency) = dependency := rfl
    have second : qsubscript (tableNode dtype tableName dependency) 2 = tableName := rfl
    simp only [discardFamily, some_under, if_true, isFuel, discardWalk, found, second, visited,
      foundNext, other, if_false]
  · left
    refine ⟨fun dependency present => some_under ⟨_, present, _, rfl⟩, ?_⟩
    rw [discardFamily, if_neg some_under]

variable (passed : discardFamily tableName dtype nodes = .ok after)
include passed

/-- At most one call of a family is removed, and its names could be put between quotes. -/
theorem eq_of_discardFamily {first second : FunctionDependency}
    (present : tableNode dtype tableName first ∈ nodes)
    (otherPresent : tableNode dtype tableName second ∈ nodes)
    (killed : tableNode dtype tableName first ∉ after)
    (otherKilled : tableNode dtype tableName second ∉ after) :
    first = second ∧ quotableNode tableName first = true := by
  rcases discardFamily_cases within defined named with ⟨none_left, -⟩ | ⟨dependency, -, isOk⟩
  · exact absurd present (none_left first)
  · rw [isOk] at passed
    split at passed
    case isFalse => cases passed
    case isTrue quotable =>
      cases passed
      have isFirst : ∀ call, tableNode dtype tableName call ∈ nodes →
          tableNode dtype tableName call ∉
            killBoth dtype tableName (tableNode dtype tableName dependency) nodes →
          call = dependency := by
        intro call callPresent callKilled
        rw [mem_killBoth_tableNode within] at callKilled
        by_contra differs
        exact callKilled ⟨callPresent, by simp [differs], tableNode_ne_functionNode⟩
      rw [isFirst first present killed, isFirst second otherPresent otherKilled]
      exact ⟨rfl, quotable⟩

/-- The nodes of other families and all other nodes are left. -/
theorem mem_of_discardFamily {node : List Subscript} (present : node ∈ nodes)
    (others : ∀ dependency, node ≠ tableNode dtype tableName dependency ∧
      node ≠ functionNode dtype tableName dependency) : node ∈ after := by
  rcases discardFamily_cases within defined named with ⟨-, isOk⟩ | ⟨dependency, -, isOk⟩
  · obtain rfl := Except.ok.inj (isOk.symm.trans passed)
    exact present
  · rw [isOk] at passed
    split at passed
    case isFalse => cases passed
    case isTrue =>
      cases passed
      exact (mem_killBoth_tableNode within).mpr ⟨present, others dependency⟩

end OneCall

/-! ## When a table is discarded properly -/

/-- The table calls one function at most in each family, a function with another name than its own
one, and the names can be put between quotes. -/
structure Catalog.Discardable (catalog : Catalog) (tableName : Subscript) : Prop where
  atMostOne : ∀ dtype first second, tableNode dtype tableName first ∈ catalog.nodes →
    tableNode dtype tableName second ∈ catalog.nodes → first = second
  functionName_ne : ∀ dtype dependency, tableNode dtype tableName dependency ∈ catalog.nodes →
    dependency.functionName ≠ tableName
  quotable : ∀ dtype dependency, tableNode dtype tableName dependency ∈ catalog.nodes →
    quotableNode tableName dependency = true

section Discard

variable {catalog : Catalog}

/-- The nodes of some families were removed, and no other node. -/
def Cleared (catalog : Catalog) (tableName : Subscript) (families : List DDLDependencyType)
    (nodes : Finset (List Subscript)) : Prop :=
  ∀ node, node ∈ nodes ↔ node ∈ catalog.nodes ∧ ∀ dtype ∈ families, ∀ dependency,
    node ≠ tableNode dtype tableName dependency ∧ node ≠ functionNode dtype tableName dependency

variable {families : List DDLDependencyType}

theorem Cleared.subset (cleared : Cleared catalog tableName families nodes) :
    nodes ⊆ catalog.nodes :=
  fun node member => ((cleared node).mp member).1

theorem Cleared.lengthNode_mem (cleared : Cleared catalog tableName families nodes)
    (present : tableNode dtype tableName dependency ∈ nodes) :
    lengthNode dependency.functionName dependency.functionHash ∈ nodes := by
  refine (cleared _).mpr ⟨catalog.defined _ _ _ (cleared.subset present), ?_⟩
  intro _ _ _
  exact ⟨by simp [lengthNode, tableNode], by simp [lengthNode, functionNode]⟩

theorem Catalog.Discardable.discardFamily (discardable : catalog.Discardable tableName)
    (cleared : Cleared catalog tableName families nodes) (dtype : DDLDependencyType) :
    ∃ after, discardFamily tableName dtype nodes = .ok after ∧
      Cleared catalog tableName (dtype :: families) after := by
  rcases discardFamily_cases cleared.subset (fun _ present => cleared.lengthNode_mem present)
    (fun dependency present =>
      discardable.functionName_ne dtype dependency (cleared.subset present)) with
    ⟨none_left, passed⟩ | ⟨dependency, present, passed⟩
  · refine ⟨nodes, passed, fun node => ?_⟩
    rw [cleared, forall_mem_cons]
    refine and_congr_right fun inCatalog => ⟨fun others => ⟨fun call => ?_, others⟩, And.right⟩
    have notTable : tableNode dtype tableName call ∉ nodes := none_left call
    rw [cleared] at notTable
    constructor
    · rintro rfl
      exact notTable ⟨inCatalog, others⟩
    · rintro rfl
      refine notTable ⟨(catalog.mirrored ..).mpr inCatalog, fun family member other => ?_⟩
      refine ⟨fun same => (others family member other).2 ?_, tableNode_ne_functionNode⟩
      obtain ⟨rfl, -, rfl⟩ := tableNode_inj.mp same
      rfl
  · have inCatalog := cleared.subset present
    rw [discardable.quotable dtype dependency inCatalog, if_pos rfl] at passed
    refine ⟨_, passed, fun node => ?_⟩
    rw [mem_killBoth_tableNode cleared.subset, cleared, forall_mem_cons, and_assoc]
    refine and_congr_right fun nodeInCatalog => ?_
    constructor
    · rintro ⟨others, notTable, notFunction⟩
      refine ⟨fun call => ⟨?_, ?_⟩, others⟩
      · rintro rfl
        rw [discardable.atMostOne dtype _ _ nodeInCatalog inCatalog] at notTable
        exact notTable rfl
      · rintro rfl
        have callInCatalog := (catalog.mirrored dtype tableName call).mpr nodeInCatalog
        rw [discardable.atMostOne dtype _ _ callInCatalog inCatalog] at notFunction
        exact notFunction rfl
    · rintro ⟨here, others⟩
      exact ⟨others, here dependency⟩

end Discard

/-- DROP TABLE removes exactly the nodes of the dependencies of the table if and only if the table
is discardable. -/
theorem discarded_discardTable_iff (catalog : Catalog) (tableName : Subscript) :
    (∃ after, discardTable tableName catalog.nodes = .ok after ∧
      Discarded tableName catalog.nodes after) ↔ catalog.Discardable tableName := by
  have untouched : Cleared catalog tableName [] catalog.nodes := by simp [Cleared]
  constructor
  · rintro ⟨after, passed, discarded⟩
    have named : ∀ dtype dependency, tableNode dtype tableName dependency ∈ catalog.nodes →
        dependency.functionName ≠ tableName := fun dtype dependency present namesake =>
      not_discarded_of_namesake ⟨dtype, dependency, namesake, present⟩ passed discarded
    have gone : ∀ dtype dependency, tableNode dtype tableName dependency ∉ after :=
      fun dtype dependency present =>
        ((discarded _).mp present).2 ⟨dtype, dependency, .inl rfl⟩
    obtain ⟨middle, first, rest⟩ := forList_cons_eq_ok passed
    obtain ⟨final, second, rest⟩ := forList_cons_eq_ok rest
    cases rest
    have defined : ∀ dependency,
        tableNode .checkConstraint tableName dependency ∈ catalog.nodes →
          lengthNode dependency.functionName dependency.functionHash ∈ catalog.nodes :=
      catalog.defined .checkConstraint tableName
    have kept := @mem_of_discardFamily _ _ _ tableName _ subset_rfl defined
      (named .checkConstraint) first
    have within : middle ⊆ catalog.nodes := discardFamily_subset first
    have definedLater : ∀ dependency, tableNode .extractFunction tableName dependency ∈ middle →
        lengthNode dependency.functionName dependency.functionHash ∈ middle := by
      intro dependency present
      refine kept (catalog.defined .extractFunction tableName dependency (within present)) ?_
      exact fun call => ⟨by simp [lengthNode, tableNode], by simp [lengthNode, functionNode]⟩
    have namedLater := fun dependency present =>
      named .extractFunction dependency (within present)
    have unique : ∀ dtype call other, tableNode dtype tableName call ∈ catalog.nodes →
        tableNode dtype tableName other ∈ catalog.nodes →
          call = other ∧ quotableNode tableName call = true := by
      intro dtype call other present otherPresent
      cases dtype with
      | checkConstraint =>
        have killed : ∀ dependency, tableNode .checkConstraint tableName dependency ∉ middle := by
          intro dependency stays
          refine gone .checkConstraint dependency
            (mem_of_discardFamily within definedLater namedLater second stays ?_)
          simp
        exact eq_of_discardFamily subset_rfl defined (named .checkConstraint) first present
          otherPresent (killed call) (killed other)
      | extractFunction =>
        exact eq_of_discardFamily within definedLater namedLater second
          (kept present (by simp)) (kept otherPresent (by simp)) (gone _ _) (gone _ _)
    exact {
      atMostOne := fun dtype call other present otherPresent =>
        (unique dtype call other present otherPresent).1
      functionName_ne := named
      quotable := fun dtype call present => (unique dtype call call present present).2 }
  · intro discardable
    obtain ⟨middle, first, cleared⟩ := discardable.discardFamily untouched .checkConstraint
    obtain ⟨after, second, cleared⟩ := discardable.discardFamily cleared .extractFunction
    refine ⟨after, ?_, fun node => ?_⟩
    · simp only [discardTable, forList, first, second]
    · rw [cleared]
      refine and_congr_right fun _ => ?_
      simp only [Mentions, not_exists, not_or]
      constructor
      · intro others dtype dependency
        refine others dtype ?_ dependency
        cases dtype <;> simp
      · intro others dtype _ dependency
        exact others dtype dependency

/-- A table with two CHECK constraints that call the same function. -/
def twoChecks : Catalog :=
  ((Catalog.empty.define (.text "samevalue") (.text "%ydboctoFN1")).record .checkConstraint
    (.text "names") ⟨.text "names_check1", .text "samevalue", .text "%ydboctoFN1"⟩
      (by decide +kernel)).record .checkConstraint (.text "names")
        ⟨.text "names_check2", .text "samevalue", .text "%ydboctoFN1"⟩ (by decide +kernel)

/-- Both nodes of the second constraint are left after DROP TABLE. -/
theorem discardTable_twoChecks :
    ∃ after, discardTable (.text "names") twoChecks.nodes = .ok after ∧
      tableNode .checkConstraint (.text "names")
        ⟨.text "names_check2", .text "samevalue", .text "%ydboctoFN1"⟩ ∈ after ∧
      functionNode .checkConstraint (.text "names")
        ⟨.text "names_check2", .text "samevalue", .text "%ydboctoFN1"⟩ ∈ after ∧
      ¬Discarded (.text "names") twoChecks.nodes after := by
  refine ⟨killBoth .checkConstraint (.text "names") (tableNode .checkConstraint (.text "names")
      ⟨.text "names_check1", .text "samevalue", .text "%ydboctoFN1"⟩) twoChecks.nodes,
    by decide +kernel, by decide +kernel, by decide +kernel, fun discarded => ?_⟩
  exact ((discarded (tableNode .checkConstraint (.text "names")
    ⟨.text "names_check2", .text "samevalue", .text "%ydboctoFN1"⟩)).mp (by decide +kernel)).2
      ⟨.checkConstraint, _, .inl rfl⟩

end Octo.Schema
