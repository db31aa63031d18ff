import Octo.Foundation.Grouped
import Octo.Foundation.LinkedList
import Octo.Logical.KeyFixingCorrect

/-!
# The splice of the key list

The keys of a plan are a singly linked list of `LP_KEYS` nodes below the `LP_CRITERIA` node. When a
column without a key is fixed, `lp_optimize_where_multi_equals_ands_helper` cuts the keys of its
table out of the list and links the key of the cross reference and the keys that
`lp_generate_xref_keys` returns in their place. This is done with pointers that two searches find.
The list that results is the one that `replaceKeys` computes, and it keeps the keys of every other
table.
-/
namespace Octo.Logical

open Octo.Foundation List Option NodeHeap Nat

variable {Value : Type} {uniqueId fuel : Nat} {before run behind : List Nat}

/-! ## The nodes of the key list -/

/-- The `LP_KEYS` nodes. The addresses from `fresh` on are not allocated yet. -/
structure KeysHeap (Value : Type) where
  nodes : NodeHeap (SqlKey Value)
  fresh : Nat

/-- Allocates a node for a key, with no node behind it. -/
def KeysHeap.malloc (heap : KeysHeap Value) (key : SqlKey Value) : KeysHeap Value :=
  ⟨Function.update heap.nodes heap.fresh ⟨key, none⟩, heap.fresh + 1⟩

/-- Writes `operand[1]` of a node. -/
def KeysHeap.setNext (heap : KeysHeap Value) (address : Nat) (next : Option Nat) :
    KeysHeap Value :=
  { heap with nodes := heap.nodes.setNext address next }

/-- The nodes and `operand[0]` of the `LP_CRITERIA` node. -/
structure KeysPlan (Value : Type) where
  heap : KeysHeap Value
  head : Nat

/-- The keys of the list. -/
def keysAt (heap : KeysHeap Value) (addresses : List Nat) : List (SqlKey Value) :=
  addresses.map fun address => (heap.nodes address).item

/-- The key list of the plan has the given keys. -/
def KeysPlan.Holds (plan : KeysPlan Value) (keys : List (SqlKey Value)) : Prop :=
  ∃ addresses, plan.heap.nodes.Links (some plan.head) addresses none ∧
    (∀ address ∈ addresses, address < plan.heap.fresh) ∧ keysAt plan.heap addresses = keys

/-! ## The pointer code -/

/-- The loop of `lp_generate_xref_keys` behind the first key: a node is linked for each key. -/
def appendKeys : Nat → List (SqlKey Value) → KeysHeap Value → KeysHeap Value
  | _, [], heap => heap
  | keys, key :: rest, heap =>
    appendKeys heap.fresh rest ((heap.malloc key).setNext keys (some heap.fresh))

/-- The list that `lp_generate_xref_keys` returns for the key columns of a table. -/
def lpGenerateXrefKeys (first : SqlKey Value) (rest : List (SqlKey Value))
    (heap : KeysHeap Value) : Nat × KeysHeap Value :=
  (heap.fresh, appendKeys heap.fresh rest (heap.malloc first))

/-- The search for the first key of the table: `before_first_key`, which is none as long as it is
the `LP_CRITERIA` node, and `first_key`. It ends at the last node of the list. -/
def findFirstKey (nodes : NodeHeap (SqlKey Value)) (uniqueId : Nat) :
    Nat → Option Nat → Nat → Option (Option Nat × Nat)
  | 0, _, _ => none
  | fuel + 1, beforeFirstKey, firstKey =>
    if (nodes firstKey).item.uniqueId = uniqueId then some (beforeFirstKey, firstKey)
    else
      match (nodes firstKey).next with
      | none => some (beforeFirstKey, firstKey)
      | some next => findFirstKey nodes uniqueId fuel (some firstKey) next

/-- The search for the last key of the table: `before_last_key`. -/
def findLastKey (nodes : NodeHeap (SqlKey Value)) (uniqueId : Nat) :
    Nat → Nat → Nat → Option Nat
  | 0, _, _ => none
  | fuel + 1, beforeLastKey, lastKey =>
    if (nodes lastKey).item.uniqueId ≠ uniqueId then some beforeLastKey
    else
      match (nodes lastKey).next with
      | none => some lastKey
      | some next => findLastKey nodes uniqueId fuel lastKey next

/-- Links a node behind `before_first_key`: the `LP_CRITERIA` node or a node of the list. -/
def linkBehind (beforeFirstKey : Option Nat) (node : Nat) (plan : KeysPlan Value) :
    KeysPlan Value :=
  match beforeFirstKey with
  | none => { plan with head := node }
  | some before => { plan with heap := plan.heap.setNext before (some node) }

/-- Links the rest of the list behind the last new node, if there is a rest. -/
def patchTail (beforeLastKey tail : Nat) (heap : KeysHeap Value) : KeysHeap Value :=
  match (heap.nodes beforeLastKey).next with
  | none => heap
  | some rest => heap.setNext tail (some rest)

/-- A node for the key of the cross reference is linked behind `before_first_key`, the generated
keys behind that node, and the rest of the list behind them. -/
def insertXrefKeys (fuel : Nat) (xref : SqlKey Value) (beforeFirstKey : Option Nat)
    (beforeLastKey generatedXrefKeys : Nat) (plan : KeysPlan Value) : Option (KeysPlan Value) := do
  let node := plan.heap.fresh
  let linked := linkBehind beforeFirstKey node ⟨plan.heap.malloc xref, plan.head⟩
  let heap := linked.heap.setNext node (some generatedXrefKeys)
  let tail ← heap.nodes.lastNode fuel generatedXrefKeys
  some ⟨patchTail beforeLastKey tail heap, linked.head⟩

/-- The keys of a table are replaced by the key of a cross reference and the keys under it. There is
no result when a loop needs more steps than the given number. -/
def spliceXrefKeys (fuel uniqueId : Nat) (xref first : SqlKey Value) (rest : List (SqlKey Value))
    (plan : KeysPlan Value) : Option (KeysPlan Value) := do
  let (generatedXrefKeys, heap) := lpGenerateXrefKeys first rest plan.heap
  let (beforeFirstKey, firstKey) ← findFirstKey heap.nodes uniqueId fuel none plan.head
  let beforeLastKey ← findLastKey heap.nodes uniqueId fuel firstKey firstKey
  insertXrefKeys fuel xref beforeFirstKey beforeLastKey generatedXrefKeys ⟨heap, plan.head⟩

/-! ## What the parts do -/

section Parts

variable {heap : KeysHeap Value}

theorem malloc_nodes_of_lt (key : SqlKey Value) {address : Nat} (allocated : address < heap.fresh) :
    (heap.malloc key).nodes address = heap.nodes address :=
  Function.update_of_ne (Nat.ne_of_lt allocated) _ _

theorem malloc_nodes_fresh (key : SqlKey Value) :
    (heap.malloc key).nodes heap.fresh = ⟨key, none⟩ :=
  Function.update_self _ _ _

/-- Behind a new node the loop links further new nodes, and leaves all others. -/
theorem appendKeys_spec {first : SqlKey Value} {keys : Nat} (rest : List (SqlKey Value))
    (node : heap.nodes keys = ⟨first, none⟩) (newest : heap.fresh = keys + 1) :
    ∃ addresses, (appendKeys keys rest heap).nodes.Links (some keys) addresses none ∧
      keysAt (appendKeys keys rest heap) addresses = first :: rest ∧
      keys < (appendKeys keys rest heap).fresh ∧
      (∀ address ∈ addresses, keys ≤ address ∧ address < (appendKeys keys rest heap).fresh) ∧
      ∀ address < keys, (appendKeys keys rest heap).nodes address = heap.nodes address := by
  induction rest generalizing heap keys first with
  | nil =>
    have grows : keys < heap.fresh := by omega
    exact ⟨[keys], ⟨rfl, by rw [appendKeys, node]; rfl⟩, by simp [keysAt, appendKeys, node], grows,
      by simpa [appendKeys] using grows, fun _ _ => rfl⟩
  | cons key rest ih =>
    have newNode : ((heap.malloc key).setNext keys (some heap.fresh)).nodes heap.fresh =
        ⟨key, none⟩ :=
      (setNext_of_ne (by omega) _).trans (malloc_nodes_fresh key)
    obtain ⟨addresses, links, items, grows, range, frame⟩ := ih newNode rfl
    have keysNode : (appendKeys keys (key :: rest) heap).nodes keys = ⟨first, some heap.fresh⟩ := by
      refine (frame keys (by omega)).trans ((setNext_self _).trans ?_)
      rw [malloc_nodes_of_lt key (by omega), node]
    have larger : keys < (appendKeys keys (key :: rest) heap).fresh := by
      refine lt_trans ?_ grows
      omega
    refine ⟨keys :: addresses, ⟨rfl, ?_⟩, ?_, larger, ?_, ?_⟩
    · rw [keysNode]
      exact links
    · exact congrArg₂ _ (congrArg Node.item keysNode) items
    · rw [forall_mem_cons]
      refine ⟨⟨le_refl _, larger⟩, fun address inRest => ⟨?_, (range address inRest).2⟩⟩
      exact le_trans (by omega) (range address inRest).1
    · intro address below
      refine (frame address (by omega)).trans ((setNext_of_ne (by omega) _).trans ?_)
      exact malloc_nodes_of_lt key (by omega)

/-- `lp_generate_xref_keys` returns a list of new nodes with the keys. -/
theorem lpGenerateXrefKeys_spec (first : SqlKey Value) (rest : List (SqlKey Value))
    (heap : KeysHeap Value) :
    ∃ addresses, (lpGenerateXrefKeys first rest heap).2.nodes.Links
        (some (lpGenerateXrefKeys first rest heap).1) addresses none ∧
      keysAt (lpGenerateXrefKeys first rest heap).2 addresses = first :: rest ∧
      (∀ address ∈ addresses, heap.fresh ≤ address ∧
        address < (lpGenerateXrefKeys first rest heap).2.fresh) ∧
      ∀ address < heap.fresh,
        (lpGenerateXrefKeys first rest heap).2.nodes address = heap.nodes address := by
  obtain ⟨addresses, links, items, -, range, frame⟩ :=
    appendKeys_spec rest (malloc_nodes_fresh first) rfl
  exact ⟨addresses, links, items, range, fun address below =>
    (frame address below).trans (malloc_nodes_of_lt first below)⟩

variable {nodes : NodeHeap (SqlKey Value)} {start : Option Nat}

/-- The first search passes the keys of other tables. -/
theorem findFirstKey_eq {firstKey head : Nat} {rest : List Nat}
    {beforeFirstKey : Option Nat} (links : nodes.Links start (before ++ firstKey :: rest) none)
    (starts : start = some head)
    (others : ∀ address ∈ before, (nodes address).item.uniqueId ≠ uniqueId)
    (found : (nodes firstKey).item.uniqueId = uniqueId) (enough : before.length < fuel) :
    findFirstKey nodes uniqueId fuel beforeFirstKey head =
      some (before.getLast?.or beforeFirstKey, firstKey) := by
  induction before generalizing start head fuel beforeFirstKey with
  | nil =>
    obtain ⟨fuel, rfl⟩ := Nat.exists_eq_add_of_lt enough
    obtain ⟨here, -⟩ := links
    obtain rfl : firstKey = head := some.inj (here.symm.trans starts)
    rw [findFirstKey, if_pos found, getLast?_nil, none_or]
  | cons address before ih =>
    obtain ⟨fuel, rfl⟩ := Nat.exists_eq_add_of_lt enough
    obtain ⟨here, behind⟩ := links
    obtain rfl : address = head := some.inj (here.symm.trans starts)
    obtain ⟨next, follows⟩ : ∃ next, (nodes address).next = some next := by
      cases before <;> exact ⟨_, behind.1⟩
    rw [findFirstKey, if_neg (others address mem_cons_self), follows]
    refine (ih behind follows (forall_mem_of_forall_mem_cons others)
      (Nat.lt_add_right fuel (Nat.lt_succ_self _))).trans ?_
    rw [getLast?_cons]
    cases before.getLast? <;> rfl

/-- The second search ends with the last key of the table. -/
theorem findLastKey_eq {head beforeLastKey : Nat}
    (links : nodes.Links start (run ++ behind) none) (starts : start = some head)
    (own : ∀ address ∈ run, (nodes address).item.uniqueId = uniqueId)
    (others : ∀ address ∈ behind.head?, (nodes address).item.uniqueId ≠ uniqueId)
    (enough : run.length < fuel) :
    findLastKey nodes uniqueId fuel beforeLastKey head =
      some (run.getLast?.getD beforeLastKey) := by
  induction run generalizing start head fuel beforeLastKey with
  | nil =>
    obtain ⟨fuel, rfl⟩ := Nat.exists_eq_add_of_lt enough
    cases behind with
    | nil => cases links.symm.trans starts
    | cons address behind =>
      obtain rfl : address = head := some.inj (links.1.symm.trans starts)
      rw [findLastKey, if_pos (others address rfl), getLast?_nil, getD_none]
  | cons address run ih =>
    obtain ⟨fuel, rfl⟩ := Nat.exists_eq_add_of_lt enough
    obtain ⟨here, rest⟩ := links
    obtain rfl : address = head := some.inj (here.symm.trans starts)
    rw [findLastKey, if_neg (not_not.mpr (own address mem_cons_self)), getLast?_cons, getD_some]
    cases follows : (nodes address).next with
    | none =>
      have ended : run = [] := by
        cases run with
        | nil => rfl
        | cons other run => cases follows.symm.trans rest.1
      rw [ended, getLast?_nil, getD_none]
    | some next =>
      exact ih rest follows (forall_mem_of_forall_mem_cons own)
        (Nat.lt_add_right fuel (Nat.lt_succ_self _))

/-- The node that is linked behind the nodes before the table follows them. -/
theorem linkBehind_spec {head : Nat} {stop : Option Nat} (node : Nat)
    (links : heap.nodes.Links (some head) before stop) (distinct : before.Nodup) :
    (linkBehind before.getLast? node ⟨heap, head⟩).heap.nodes.Links
        (some (linkBehind before.getLast? node ⟨heap, head⟩).head) before (some node) ∧
      (linkBehind before.getLast? node ⟨heap, head⟩).heap.fresh = heap.fresh ∧
      (∀ address, ((linkBehind before.getLast? node ⟨heap, head⟩).heap.nodes address).item =
        (heap.nodes address).item) ∧
      ∀ address ∉ before,
        (linkBehind before.getLast? node ⟨heap, head⟩).heap.nodes address = heap.nodes address := by
  obtain rfl | ⟨front, last, rfl⟩ := eq_nil_or_concat' before
  · exact ⟨rfl, rfl, fun _ => rfl, fun _ _ => rfl⟩
  · rw [getLast?_concat]
    have apart : last ∉ front := fun member =>
      disjoint_of_nodup_append distinct member (mem_singleton_self last)
    refine ⟨links.setLast apart _, rfl, fun address => item_setNext _ _, ?_⟩
    intro address outside
    refine setNext_of_ne (fun same => outside ?_) _
    rw [same]
    exact mem_append_right front (mem_singleton_self last)

/-- The pointer that follows the keys of the table is written behind the new nodes, whether it is
null or not. -/
theorem patchTail_eq {beforeLastKey tail : Nat} (ends : (heap.nodes tail).next = none) :
    patchTail beforeLastKey tail heap = heap.setNext tail (heap.nodes beforeLastKey).next := by
  unfold patchTail
  split
  · rename_i last
    rw [last, KeysHeap.setNext, setNext_eq_self ends]
  · rename_i rest follows
    rw [follows]

end Parts

/-! ## The splice -/

/-- The key list around the keys of a table. -/
structure TableRun (plan : KeysPlan Value) (uniqueId : Nat) (before run behind : List Nat) :
    Prop where
  links : plan.heap.nodes.Links (some plan.head) (before ++ run ++ behind) none
  allocated : ∀ address ∈ before ++ run ++ behind, address < plan.heap.fresh
  present : run ≠ []
  own : ∀ address ∈ run, (plan.heap.nodes address).item.uniqueId = uniqueId
  others : ∀ address ∈ before ++ behind, (plan.heap.nodes address).item.uniqueId ≠ uniqueId

variable {heap : KeysHeap Value} {plan : KeysPlan Value}

theorem keysAt_agree {other : KeysHeap Value} {addresses : List Nat}
    (same : ∀ address ∈ addresses, (other.nodes address).item = (heap.nodes address).item) :
    keysAt other addresses = keysAt heap addresses :=
  map_congr_left same

theorem keysAt_append (heap : KeysHeap Value) (first second : List Nat) :
    keysAt heap (first ++ second) = keysAt heap first ++ keysAt heap second :=
  map_append

@[simp] theorem keysAt_setNext (heap : KeysHeap Value) (address : Nat) (next : Option Nat)
    (addresses : List Nat) :
    keysAt (heap.setNext address next) addresses = keysAt heap addresses :=
  keysAt_agree fun _ _ => item_setNext _ _

/-- The new nodes take the place of the nodes between those before and those behind the table. -/
theorem insertXrefKeys_holds {genInit : List Nat} {head root tail lastRun : Nat}
    {stop afterRun : Option Nat} (xref : SqlKey Value)
    (beforeLinks : heap.nodes.Links (some head) before stop)
    (newLinks : heap.nodes.Links (some root) (genInit ++ [tail]) none)
    (behindLinks : heap.nodes.Links afterRun behind none)
    (lastNext : (heap.nodes lastRun).next = afterRun)
    (distinct : (before ++ (genInit ++ [tail]) ++ behind).Nodup)
    (apart : lastRun ∉ before) (allocated : lastRun < heap.fresh)
    (allAllocated : ∀ address ∈ before ++ (genInit ++ [tail]) ++ behind, address < heap.fresh)
    (enough : genInit.length < fuel) :
    ∃ spliced, insertXrefKeys fuel xref before.getLast? lastRun root ⟨heap, head⟩ = some spliced ∧
      spliced.Holds (keysAt heap before ++ (xref :: keysAt heap (genInit ++ [tail])) ++
        keysAt heap behind) := by
  obtain ⟨frontDistinct, -, behindApart⟩ := nodup_append.mp distinct
  obtain ⟨beforeDistinct, newDistinct, newApart⟩ := nodup_append.mp frontDistinct
  rw [forall_mem_append, forall_mem_append] at allAllocated
  obtain ⟨⟨inBefore, inNew⟩, inBehind⟩ := allAllocated
  have tailNew : tail ∈ genInit ++ [tail] := mem_append_right _ (mem_singleton_self _)
  have freshNotIn {addresses : List Nat} (below : ∀ address ∈ addresses, address < heap.fresh) :
      heap.fresh ∉ addresses := fun member => lt_irrefl _ (below _ member)
  obtain ⟨linkedBefore, linkedFresh, linkedItem, linkedFrame⟩ :=
    linkBehind_spec heap.fresh (beforeLinks.agree fun address member =>
      malloc_nodes_of_lt xref (inBefore address member)) beforeDistinct
  unfold insertXrefKeys
  dsimp only
  generalize linkBehind before.getLast? heap.fresh ⟨heap.malloc xref, head⟩ = linked at *
  have newNode : (linked.heap.setNext heap.fresh (some root)).nodes heap.fresh =
      ⟨xref, some root⟩ := by
    refine (setNext_self _).trans ?_
    rw [linkedFrame _ (freshNotIn inBefore), malloc_nodes_fresh]
  -- The writes up to here are to the nodes before the table and to the new node.
  have kept {start stop : Option Nat} {addresses : List Nat}
      (links : heap.nodes.Links start addresses stop)
      (below : ∀ address ∈ addresses, address < heap.fresh)
      (outside : ∀ address ∈ addresses, address ∉ before) :
      (linked.heap.setNext heap.fresh (some root)).nodes.Links start addresses stop :=
    (links.agree fun address member => (linkedFrame address (outside address member)).trans
      (malloc_nodes_of_lt xref (below address member))).setNext (freshNotIn below) _
  have items {addresses : List Nat} (below : ∀ address ∈ addresses, address < heap.fresh) :
      keysAt (linked.heap.setNext heap.fresh (some root)) addresses = keysAt heap addresses := by
    rw [keysAt_setNext]
    refine keysAt_agree fun address member => (linkedItem address).trans ?_
    rw [malloc_nodes_of_lt xref (below address member)]
  have beforeLinked : (linked.heap.setNext heap.fresh (some root)).nodes.Links
      (some linked.head) before (some heap.fresh) := linkedBefore.setNext (freshNotIn inBefore) _
  have sameFresh : (linked.heap.setNext heap.fresh (some root)).fresh = heap.fresh + 1 :=
    linkedFresh
  generalize linked.heap.setNext heap.fresh (some root) = relinked at *
  have genLinks := kept newLinks inNew fun address member before =>
    newApart address before address member rfl
  have behindKept := kept behindLinks inBehind fun address member before =>
    behindApart address (mem_append_left _ before) address member rfl
  obtain ⟨-, lastKept⟩ := kept (show heap.nodes.Links (some lastRun) [lastRun] afterRun from
    ⟨rfl, lastNext⟩) (forall_mem_singleton.2 allocated) (forall_mem_singleton.2 apart)
  have tailNotBefore : tail ∉ before := fun member => newApart tail member tail tailNew rfl
  have tailNotBehind : tail ∉ behind := fun member =>
    behindApart tail (mem_append_right _ tailNew) tail member rfl
  have tailNotInit : tail ∉ genInit := fun member =>
    disjoint_of_nodup_append newDistinct member (mem_singleton_self tail)
  rw [lastNode_eq genLinks rfl enough]
  refine ⟨_, rfl, before ++ (heap.fresh :: (genInit ++ [tail])) ++ behind, ?_⟩
  rw [patchTail_eq (links_concat.mp genLinks).2, lastKept]
  refine ⟨?_, ?_, ?_⟩
  · refine links_append.mpr ⟨afterRun, links_append.mpr
      ⟨some heap.fresh, beforeLinked.setNext tailNotBefore _, rfl, ?_⟩,
      behindKept.setNext tailNotBehind _⟩
    have freshNotTail : heap.fresh ≠ tail := ne_of_gt (inNew tail tailNew)
    rw [show (relinked.setNext tail afterRun).nodes heap.fresh = _ from
      (setNext_of_ne freshNotTail _).trans newNode]
    exact genLinks.setLast tailNotInit afterRun
  · show ∀ address ∈ _, address < relinked.fresh
    rw [sameFresh, forall_mem_append, forall_mem_append, forall_mem_cons]
    have later {addresses : List Nat} (below : ∀ address ∈ addresses, address < heap.fresh)
        (address : Nat) (member : address ∈ addresses) : address < heap.fresh + 1 :=
      lt_succ_of_lt (below address member)
    exact ⟨⟨later inBefore, lt_succ_self _, later inNew⟩, later inBehind⟩
  · rw [keysAt_setNext, keysAt_append, keysAt_append, items inBefore, items inBehind]
    exact congrArg₂ (fun key keys => _ ++ key :: keys ++ _) (congrArg Node.item newNode)
      (items inNew)

theorem nodup_replaced {new : List Nat} (old : (before ++ run ++ behind).Nodup)
    (distinct : new.Nodup) (fresh : ∀ address ∈ new, address ∉ before ++ run ++ behind) :
    (before ++ new ++ behind).Nodup := by
  simp only [nodup_append, mem_append, not_or] at old fresh ⊢
  obtain ⟨⟨beforeDistinct, -, -⟩, behindDistinct, apart⟩ := old
  refine ⟨⟨beforeDistinct, distinct, ?_⟩, behindDistinct, ?_⟩
  · rintro address inBefore other inNew rfl
    exact (fresh address inNew).1.1 inBefore
  · rintro address (inBefore | inNew) other inBehind rfl
    · exact apart address (Or.inl inBefore) address inBehind rfl
    · exact (fresh address inNew).2 inBehind

/-- The keys of the table are replaced where they stand. -/
theorem spliceXrefKeys_holds (table : TableRun plan uniqueId before run behind)
    (xref first : SqlKey Value) (rest : List (SqlKey Value))
    (enough : (before ++ run ++ behind).length + rest.length + 1 < fuel) :
    ∃ spliced, spliceXrefKeys fuel uniqueId xref first rest plan = some spliced ∧
      spliced.Holds (keysAt plan.heap before ++ (xref :: first :: rest) ++
        keysAt plan.heap behind) := by
  obtain ⟨links, allocated, present, own, others⟩ := table
  obtain ⟨generated, newLinks, newKeys, newRange, frame⟩ :=
    lpGenerateXrefKeys_spec first rest plan.heap
  unfold spliceXrefKeys
  generalize lpGenerateXrefKeys first rest plan.heap = result at *
  obtain ⟨root, heap⟩ := result
  dsimp only at newLinks newKeys newRange frame ⊢
  obtain ⟨inFront, inBehind⟩ := forall_mem_append.mp allocated
  obtain ⟨inBefore, inRun⟩ := forall_mem_append.mp inFront
  replace links := links.agree fun address member => frame address (allocated address member)
  have oldDistinct := links.nodup
  have sameId (address : Nat) (below : address < plan.heap.fresh) :
      (heap.nodes address).item.uniqueId = (plan.heap.nodes address).item.uniqueId := by
    rw [frame address below]
  obtain ⟨afterRun, frontLinks, behindLinks⟩ := links_append.mp links
  obtain ⟨stop, beforeLinks, runLinks⟩ := links_append.mp frontLinks
  obtain ⟨firstKey, runRest, runFirst⟩ := exists_cons_of_ne_nil present
  have starts : stop = some firstKey := by
    rw [runFirst] at runLinks
    exact runLinks.1
  have firstOwn : firstKey ∈ run := by
    rw [runFirst]
    exact mem_cons_self
  obtain ⟨runInit, lastRun, runLast⟩ : ∃ runInit lastRun, run = runInit ++ [lastRun] :=
    (eq_nil_or_concat' run).resolve_left present
  obtain ⟨genInit, tail, rfl⟩ : ∃ genInit tail, generated = genInit ++ [tail] := by
    refine (eq_nil_or_concat' generated).resolve_left fun empty => ?_
    rw [empty] at newKeys
    cases newKeys
  have newLength : genInit.length = rest.length := by
    have lengths := congrArg length newKeys
    simp only [keysAt, length_map, length_append, length_cons, length_nil] at lengths
    omega
  simp only [length_append] at enough
  have foundFirst : findFirstKey heap.nodes uniqueId fuel none plan.head =
      some (before.getLast?, firstKey) := by
    rw [runFirst, append_assoc] at links
    rw [findFirstKey_eq links rfl _ _ (by omega), or_none]
    · intro address member
      rw [sameId address (inBefore address member)]
      exact others address (mem_append_left _ member)
    · rw [sameId firstKey (inRun firstKey firstOwn)]
      exact own firstKey firstOwn
  have foundLast : findLastKey heap.nodes uniqueId fuel firstKey firstKey = some lastRun := by
    rw [findLastKey_eq (links_append.mpr ⟨afterRun, runLinks, behindLinks⟩) starts _ _
      (by omega), runLast, getLast?_concat, getD_some]
    · intro address member
      rw [sameId address (inRun address member)]
      exact own address member
    · intro address member
      have inList : address ∈ behind := mem_of_mem_head? member
      rw [sameId address (inBehind address inList)]
      exact others address (mem_append_right _ inList)
  have lastOwn : lastRun ∈ run := by
    rw [runLast]
    exact mem_append_right _ (mem_singleton_self lastRun)
  have lastNext : (heap.nodes lastRun).next = afterRun := by
    rw [runLast] at runLinks
    exact (links_concat.mp runLinks).2
  have distinct := nodup_replaced oldDistinct newLinks.nodup fun address member old =>
    absurd (allocated address old) (not_lt.mpr (newRange address member).1)
  have lastApart : lastRun ∉ before := fun member =>
    (nodup_append.mp (nodup_append.mp oldDistinct).1).2.2 lastRun member lastRun lastOwn rfl
  have grows : plan.heap.fresh ≤ heap.fresh :=
    have tailRange := newRange tail (mem_append_right _ (mem_singleton_self tail))
    le_of_lt (lt_of_le_of_lt tailRange.1 tailRange.2)
  obtain ⟨spliced, computed, holds⟩ := @insertXrefKeys_holds Value fuel before behind heap genInit
    plan.head root tail lastRun stop afterRun xref beforeLinks newLinks behindLinks lastNext
      distinct
    lastApart (lt_of_lt_of_le (inRun lastRun lastOwn) grows)
    (by
      rw [forall_mem_append, forall_mem_append]
      exact ⟨⟨fun address member => lt_of_lt_of_le (inBefore address member) grows,
        fun address member => (newRange address member).2⟩,
        fun address member => lt_of_lt_of_le (inBehind address member) grows⟩)
    (by omega)
  refine ⟨spliced, ?_, ?_⟩
  · rw [foundFirst]
    show (findLastKey heap.nodes uniqueId fuel firstKey firstKey >>= _) = _
    rw [foundLast]
    exact computed
  · have same (addresses : List Nat) (below : ∀ address ∈ addresses, address < plan.heap.fresh) :
        keysAt heap addresses = keysAt plan.heap addresses :=
      keysAt_agree fun address member => by rw [frame address (below address member)]
    rw [newKeys, same before inBefore, same behind inBehind] at holds
    exact holds

/-! ## The keys of the tables -/

/-- The keys of every table stand next to each other. -/
def Contiguous (keys : List (SqlKey Value)) : Prop :=
  ∀ uniqueId, ∃ before run behind, keys = before ++ run ++ behind ∧
    (∀ key ∈ run, key.uniqueId = uniqueId) ∧ ∀ key ∈ before ++ behind, key.uniqueId ≠ uniqueId

theorem contiguous_iff_grouped (keys : List (SqlKey Value)) :
    Contiguous keys ↔ Grouped (keys.map SqlKey.uniqueId) := by
  rw [grouped_iff_hasRun]
  refine forall_congr' fun uniqueId => ⟨?_, ?_⟩
  · rintro ⟨before, run, behind, rfl, own, others⟩
    refine ⟨before.map SqlKey.uniqueId, run.map SqlKey.uniqueId, behind.map SqlKey.uniqueId,
      by simp, ?_, ?_⟩
    · rintro other member
      obtain ⟨key, inRun, rfl⟩ := mem_map.mp member
      exact own key inRun
    · rw [← map_append]
      intro member
      obtain ⟨key, outside, same⟩ := mem_map.mp member
      exact others key outside same
  · rintro ⟨before, run, behind, split, own, others⟩
    obtain ⟨front, behindKeys, rfl, frontSplit, rfl⟩ := map_eq_append_iff.mp split
    obtain ⟨beforeKeys, runKeys, rfl, rfl, rfl⟩ := map_eq_append_iff.mp frontSplit
    refine ⟨beforeKeys, runKeys, behindKeys, rfl, ?_, ?_⟩
    · exact fun key member => own key.uniqueId (mem_map_of_mem member)
    · rw [← map_append] at others
      intro key member same
      exact others (mem_map.mpr ⟨key, member, same⟩)

variable {before run behind : List (SqlKey Value)} (present : run ≠ [])
  (own : ∀ key ∈ run, key.uniqueId = uniqueId)
  (others : ∀ key ∈ before ++ behind, key.uniqueId ≠ uniqueId)

include present own in
/-- Other keys of a table in the place of its keys leave the keys of every table together. -/
theorem Contiguous.replaceRun {new : List (SqlKey Value)}
    (contiguous : Contiguous (before ++ run ++ behind)) (some : new ≠ [])
    (newOwn : ∀ key ∈ new, key.uniqueId = uniqueId) : Contiguous (before ++ new ++ behind) := by
  rw [contiguous_iff_grouped, map_append, map_append] at contiguous ⊢
  have labels {keys : List (SqlKey Value)} (own : ∀ key ∈ keys, key.uniqueId = uniqueId) :
      ∀ label ∈ keys.map SqlKey.uniqueId, label = uniqueId := by
    intro label member
    obtain ⟨key, inKeys, rfl⟩ := mem_map.mp member
    exact own key inKeys
  rw [grouped_run _ _ (mt map_eq_nil_iff.mp present) (labels own)] at contiguous
  rw [grouped_run _ _ (mt map_eq_nil_iff.mp some) (labels newOwn)]
  exact contiguous

include present own others in
/-- A list with the keys of a table together is a run of nodes with others around it. -/
theorem KeysPlan.Holds.tableRun (holds : plan.Holds (before ++ run ++ behind)) :
    ∃ beforeNodes runNodes behindNodes,
      TableRun plan uniqueId beforeNodes runNodes behindNodes ∧
      keysAt plan.heap beforeNodes = before ∧ keysAt plan.heap behindNodes = behind ∧
      (beforeNodes ++ runNodes ++ behindNodes).length = (before ++ run ++ behind).length := by
  obtain ⟨addresses, links, allocated, keys⟩ := holds
  obtain ⟨front, behindNodes, rfl, frontKeys, rfl⟩ := map_eq_append_iff.mp keys
  obtain ⟨beforeNodes, runNodes, rfl, rfl, rfl⟩ := map_eq_append_iff.mp frontKeys
  refine ⟨beforeNodes, runNodes, behindNodes, ⟨links, allocated, ?_, ?_, ?_⟩, rfl, rfl, by simp⟩
  · exact fun empty => present (by rw [empty, map_nil])
  · exact fun address member => own _ (mem_map_of_mem member)
  · rw [← map_append] at others
    exact fun address member => others _ (mem_map_of_mem member)

theorem firstKeyPosition_append {before rest : List (SqlKey Value)} {first : SqlKey Value}
    (others : ∀ key ∈ before, key.uniqueId ≠ uniqueId) (found : first.uniqueId = uniqueId) :
    firstKeyPosition uniqueId (before ++ first :: rest) = before.length := by
  induction before with
  | nil =>
    cases rest with
    | nil => rfl
    | cons second rest => exact if_pos found
  | cons key before ih =>
    have step : firstKeyPosition uniqueId (key :: (before ++ first :: rest)) =
        firstKeyPosition uniqueId (before ++ first :: rest) + 1 := by
      cases before <;> exact if_neg (others key mem_cons_self)
    rw [cons_append, step, ih (forall_mem_of_forall_mem_cons others), length_cons]

include others in
theorem run_ne_nil (present : ∃ key ∈ before ++ run ++ behind, key.uniqueId = uniqueId) :
    run ≠ [] := by
  rintro rfl
  obtain ⟨key, member, same⟩ := present
  rw [append_nil] at member
  exact others key member same

include present own others in
/-- The splice of the list in terms of the run of the table. -/
theorem replaceKeys_run (new : List (SqlKey Value)) :
    replaceKeys uniqueId new (before ++ run ++ behind) = before ++ new ++ behind := by
  obtain ⟨first, rest, rfl⟩ := exists_cons_of_ne_nil present
  have position := @firstKeyPosition_append _ uniqueId before (rest ++ behind) first
    (fun key member => others key (mem_append_left _ member)) (own first mem_cons_self)
  have restDropped : rest.dropWhile (fun key => key.uniqueId == uniqueId) = [] :=
    dropWhile_eq_nil_iff.mpr fun key member =>
      beq_iff_eq.mpr (own key (mem_cons_of_mem _ member))
  have behindKept : behind.dropWhile (fun key => key.uniqueId == uniqueId) = behind := by
    cases behind with
    | nil => rfl
    | cons key behind =>
      refine dropWhile_cons_of_neg ?_
      rw [beq_iff_eq]
      exact others key (mem_append_right _ mem_cons_self)
  rw [replaceKeys, append_assoc before, cons_append]
  rw [position, take_left, drop_left, tail_cons, dropWhile_append, restDropped,
    isEmpty_nil, if_pos rfl, behindKept]

/-- The pointer code computes the list that `replaceKeys` describes. -/
theorem spliceXrefKeys_eq_replaceKeys
    {keys : List (SqlKey Value)} (holds : plan.Holds keys) (contiguous : Contiguous keys)
    (present : ∃ key ∈ keys, key.uniqueId = uniqueId) (xref first : SqlKey Value)
    (rest : List (SqlKey Value)) (enough : keys.length + rest.length + 1 < fuel) :
    ∃ spliced, spliceXrefKeys fuel uniqueId xref first rest plan = some spliced ∧
      spliced.Holds (replaceKeys uniqueId (xref :: first :: rest) keys) := by
  obtain ⟨before, run, behind, rfl, own, others⟩ := contiguous uniqueId
  have runPresent : run ≠ [] := run_ne_nil others present
  obtain ⟨beforeNodes, runNodes, behindNodes, table, beforeKeys, behindKeys, sameLength⟩ :=
    holds.tableRun runPresent own others
  rw [replaceKeys_run runPresent own others, ← beforeKeys, ← behindKeys]
  exact spliceXrefKeys_holds table xref first rest (by rw [sameLength]; exact enough)

/-- Whatever stands before and behind the keys of a table, and however many there are, the splice
gives a list with the new keys of the table once, the keys of all other tables in their order, and
the keys of every table together. -/
theorem spliceXrefKeys_keeps_contiguous {plan : KeysPlan Value} {uniqueId fuel : Nat}
    {keys : List (SqlKey Value)} (holds : plan.Holds keys) (contiguous : Contiguous keys)
    (present : ∃ key ∈ keys, key.uniqueId = uniqueId) {xref first : SqlKey Value}
    {rest : List (SqlKey Value)} (newOwn : ∀ key ∈ xref :: first :: rest, key.uniqueId = uniqueId)
    (enough : keys.length + rest.length + 1 < fuel) :
    ∃ spliced newKeys, spliceXrefKeys fuel uniqueId xref first rest plan = some spliced ∧
      spliced.Holds newKeys ∧
      newKeys.filter (·.uniqueId ≠ uniqueId) = keys.filter (·.uniqueId ≠ uniqueId) ∧
      newKeys.filter (·.uniqueId = uniqueId) = xref :: first :: rest ∧
      Contiguous newKeys := by
  obtain ⟨spliced, computed, newHolds⟩ :=
    spliceXrefKeys_eq_replaceKeys holds contiguous present xref first rest enough
  obtain ⟨before, run, behind, rfl, own, others⟩ := contiguous uniqueId
  have runPresent : run ≠ [] := run_ne_nil others present
  rw [replaceKeys_run runPresent own others] at newHolds
  have othersKept {run : List (SqlKey Value)} (own : ∀ key ∈ run, key.uniqueId = uniqueId) :
      (before ++ run ++ behind).filter (·.uniqueId ≠ uniqueId) = before ++ behind := by
    have runDropped : run.filter (·.uniqueId ≠ uniqueId) = [] :=
      filter_eq_nil_iff.mpr fun key member => by simp [own key member]
    rw [filter_append, filter_append, runDropped, append_nil, ← filter_append]
    exact filter_eq_self.mpr fun key member => decide_eq_true (others key member)
  have noOwn {part : List (SqlKey Value)} (others : ∀ key ∈ part, key.uniqueId ≠ uniqueId) :
      part.filter (·.uniqueId = uniqueId) = [] :=
    filter_eq_nil_iff.mpr fun key member => by simp [others key member]
  refine ⟨spliced, _, computed, newHolds, ?_, ?_, ?_⟩
  · rw [othersKept newOwn, othersKept own]
  · rw [filter_append, filter_append, noOwn fun key member => others key (mem_append_left _ member),
      noOwn fun key member => others key (mem_append_right _ member), append_nil]
    exact filter_eq_self.mpr fun key member => decide_eq_true (newOwn key member)
  · exact contiguous.replaceRun runPresent own (cons_ne_nil _ _) newOwn

/-- The keys of three tables; the second has two. -/
def threeTables : KeysPlan Nat where
  heap :=
    ⟨fun
      | 0 => ⟨⟨1, some "id", none, false, false⟩, some 1⟩
      | 1 => ⟨⟨2, some "order_id", none, false, false⟩, some 2⟩
      | 2 => ⟨⟨2, some "line", none, false, false⟩, some 3⟩
      | _ => ⟨⟨3, some "id", none, false, false⟩, none⟩, 4⟩
  head := 0

theorem threeTables_keeps_contiguous :
    ∃ spliced newKeys, spliceXrefKeys 8 2 ⟨2, some "item", none, false, true⟩
        ⟨2, some "order_id", none, true, false⟩ [⟨2, some "line", none, true, false⟩] threeTables =
        some spliced ∧
      spliced.Holds newKeys ∧
      newKeys.filter (·.uniqueId ≠ 2) =
        (keysAt threeTables.heap [0, 1, 2, 3]).filter (·.uniqueId ≠ 2) ∧
      newKeys.filter (·.uniqueId = 2) = [⟨2, some "item", none, false, true⟩,
        ⟨2, some "order_id", none, true, false⟩, ⟨2, some "line", none, true, false⟩] ∧
      Contiguous newKeys := by
  have holds : threeTables.Holds (keysAt threeTables.heap [0, 1, 2, 3]) :=
    ⟨[0, 1, 2, 3], by simp [threeTables], by simp [threeTables], rfl⟩
  refine spliceXrefKeys_keeps_contiguous holds ?_ ?_ ?_ (by decide)
  · rw [contiguous_iff_grouped]
    simp [keysAt, threeTables, Grouped]
  · exact ⟨_, mem_cons_of_mem _ mem_cons_self, rfl⟩
  · simp

end Octo.Logical
