import Octo.Foundation.SubscriptTree

/-!
# The functions that tables depend on

A CHECK constraint or an EXTRACT column of a table can call functions. `^%ydboctoocto` records each
of these calls twice: under the table, for DROP TABLE, and under the function, for DROP FUNCTION,
which is refused as long as there is such a node. A `Catalog` is a state of this global in which the
two nodes of each call are there together.

Of the nodes of `^%ydboctoocto` only their subscripts are modelled. The nodes of dependencies have
empty values, and no value is read by what is modelled here.
-/
namespace Octo.Schema

open Sweep SubscriptTree

/-- The subscripts of globals in their collation order: the null subscript, then the canonical
numbers, then the other texts. -/
def Subscript := WithBot (ℚ ⊕ₗ String)

namespace Subscript

instance : LinearOrder Subscript := inferInstanceAs (LinearOrder (WithBot (ℚ ⊕ₗ String)))

instance : OrderBot Subscript := inferInstanceAs (OrderBot (WithBot (ℚ ⊕ₗ String)))

/-- A text that is neither empty nor a canonical number. -/
def text (letters : String) : Subscript := WithBot.some (toLex (Sum.inr letters))

theorem text_lt_text {first second : String} : text first < text second ↔ first < second :=
  WithBot.coe_lt_coe.trans (by simp)

theorem text_inj {first second : String} : text first = text second ↔ first = second := by
  constructor
  · intro same
    exact Sum.inr_injective (toLex.injective (WithBot.coe_injective same))
  · rintro rfl
    rfl

theorem text_ne_bot (letters : String) : text letters ≠ ⊥ :=
  WithBot.coe_ne_bot

end Subscript

/-! ## The nodes of a dependency -/

/-- The subtree of function definitions. -/
def functions : Subscript := .text "functions"

/-- What calls a function. -/
inductive DDLDependencyType where
  | checkConstraint
  | extractFunction
deriving DecidableEq

open DDLDependencyType

namespace DDLDependencyType

/-- The subtree of the nodes that are recorded under the table. -/
def tableSubscript : DDLDependencyType → Subscript
  | .checkConstraint => .text "tableconstraint"
  | .extractFunction => .text "extractfunction"

/-- The subtree of the nodes that are recorded under the function. -/
def functionSubscript : DDLDependencyType → Subscript
  | .checkConstraint => .text "check_constraint"
  | .extractFunction => .text "extractfunction"

theorem tableSubscript_inj {first second : DDLDependencyType} :
    first.tableSubscript = second.tableSubscript ↔ first = second := by
  cases first <;> cases second <;> simp [tableSubscript, Subscript.text_inj]

theorem functionSubscript_inj {first second : DDLDependencyType} :
    first.functionSubscript = second.functionSubscript ↔ first = second := by
  cases first <;> cases second <;> simp [functionSubscript, Subscript.text_inj]

theorem tableSubscript_ne_functions (dtype : DDLDependencyType) :
    dtype.tableSubscript ≠ functions := by
  cases dtype <;> simp [tableSubscript, functions, Subscript.text_inj]

end DDLDependencyType

/-- A call of a function. -/
structure FunctionDependency where
  /-- The constraint or the column that calls the function. -/
  name : Subscript
  functionName : Subscript
  functionHash : Subscript
deriving DecidableEq

/-- `^%ydboctoocto("tableconstraint",table,name,functionName,functionHash)`. -/
def tableNode (dtype : DDLDependencyType) (table : Subscript) (dependency : FunctionDependency) :
    List Subscript :=
  [dtype.tableSubscript, table, dependency.name, dependency.functionName, dependency.functionHash]

/-- `^%ydboctoocto("functions",functionName,functionHash,"check_constraint",table,name)`. -/
def functionNode (dtype : DDLDependencyType) (table : Subscript)
    (dependency : FunctionDependency) : List Subscript :=
  [functions, dependency.functionName, dependency.functionHash, dtype.functionSubscript, table,
    dependency.name]

/-- `^%ydboctoocto("functions",functionName,functionHash,"length")`, which every CREATE FUNCTION
stores. -/
def lengthNode (functionName functionHash : Subscript) : List Subscript :=
  [functions, functionName, functionHash, .text "length"]

section Nodes

variable {dtype otherType : DDLDependencyType} {table otherTable : Subscript}
  {dependency other : FunctionDependency}

@[simp]
theorem tableNode_inj : tableNode dtype table dependency = tableNode otherType otherTable other ↔
    dtype = otherType ∧ table = otherTable ∧ dependency = other := by
  obtain ⟨name, functionName, functionHash⟩ := dependency
  obtain ⟨otherName, otherFunction, otherHash⟩ := other
  simp [tableNode, tableSubscript_inj]

@[simp]
theorem functionNode_inj :
    functionNode dtype table dependency = functionNode otherType otherTable other ↔
      dtype = otherType ∧ table = otherTable ∧ dependency = other := by
  obtain ⟨name, functionName, functionHash⟩ := dependency
  obtain ⟨otherName, otherFunction, otherHash⟩ := other
  simp only [functionNode, List.cons.injEq, functionSubscript_inj, FunctionDependency.mk.injEq]
  tauto

@[simp]
theorem tableNode_ne_functionNode :
    tableNode dtype table dependency ≠ functionNode otherType otherTable other := by
  simp [tableNode, functionNode]

@[simp]
theorem functionNode_ne_tableNode :
    functionNode dtype table dependency ≠ tableNode otherType otherTable other :=
  tableNode_ne_functionNode.symm

/-- Nothing under a function is under the node of a table. -/
theorem not_functions_prefix_tableNode {rest : List Subscript} :
    ¬functions :: rest <+: tableNode dtype table dependency := by
  intro starts
  exact tableSubscript_ne_functions dtype (List.cons_prefix_cons.mp starts).1.symm

/-- The nodes of tables have the same length, so that none is under another one. -/
theorem tableNode_prefix_tableNode
    (starts : tableNode dtype table dependency <+: tableNode otherType otherTable other) :
    tableNode dtype table dependency = tableNode otherType otherTable other :=
  starts.eq_of_length rfl

/-- The definition of a function stands behind the calls of it. -/
theorem functionNode_lt_lengthNode :
    functionNode dtype table dependency <
      lengthNode dependency.functionName dependency.functionHash := by
  refine append_lt_append [functions, dependency.functionName, dependency.functionHash] ?_
    [table, dependency.name] []
  cases dtype <;> exact Subscript.text_lt_text.mpr (by decide)

end Nodes

/-! ## States in which the nodes of each call are there together -/

/-- A state of `^%ydboctoocto`. The functions that are called in it are defined. -/
structure Catalog where
  nodes : Finset (List Subscript)
  mirrored : ∀ dtype table dependency,
    tableNode dtype table dependency ∈ nodes ↔ functionNode dtype table dependency ∈ nodes
  eq_tableNode : ∀ dtype, ∀ node ∈ nodes, [dtype.tableSubscript] <+: node →
    ∃ table dependency, node = tableNode dtype table dependency
  eq_functionNode : ∀ dtype functionName functionHash, ∀ node ∈ nodes,
    [functions, functionName, functionHash, dtype.functionSubscript] <+: node →
      ∃ table name, node = functionNode dtype table ⟨name, functionName, functionHash⟩
  defined : ∀ dtype table dependency, tableNode dtype table dependency ∈ nodes →
    lengthNode dependency.functionName dependency.functionHash ∈ nodes

namespace Catalog

/-- The state without any node. -/
def empty : Catalog where
  nodes := ∅
  mirrored := by simp
  eq_tableNode := by simp
  eq_functionNode := by simp
  defined := by simp

/-- The state after the definition of a function was stored. -/
def define (catalog : Catalog) (functionName functionHash : Subscript) : Catalog where
  nodes := insert (lengthNode functionName functionHash) catalog.nodes
  mirrored := by
    intro dtype table dependency
    have apart : tableNode dtype table dependency ≠ lengthNode functionName functionHash := by
      simp [tableNode, lengthNode]
    have apart' : functionNode dtype table dependency ≠ lengthNode functionName functionHash := by
      simp [functionNode, lengthNode]
    rw [Finset.mem_insert, Finset.mem_insert, or_iff_right apart, or_iff_right apart']
    exact catalog.mirrored dtype table dependency
  eq_tableNode := by
    intro dtype node member starts
    rcases Finset.mem_insert.mp member with rfl | present
    · exact absurd (List.cons_prefix_cons.mp starts).1 dtype.tableSubscript_ne_functions
    · exact catalog.eq_tableNode dtype node present starts
  eq_functionNode := by
    intro dtype name hash node member starts
    rcases Finset.mem_insert.mp member with rfl | present
    · cases dtype <;>
        simp [lengthNode, DDLDependencyType.functionSubscript, Subscript.text_inj] at starts
    · exact catalog.eq_functionNode dtype name hash node present starts
  defined := by
    intro dtype table dependency member
    refine Finset.mem_insert_of_mem (catalog.defined dtype table dependency ?_)
    refine Finset.mem_of_mem_insert_of_ne member ?_
    simp [tableNode, lengthNode]

/-- The state after both nodes of a call were stored. -/
def record (catalog : Catalog) (dtype : DDLDependencyType) (table : Subscript)
    (dependency : FunctionDependency)
    (isDefined : lengthNode dependency.functionName dependency.functionHash ∈ catalog.nodes) :
    Catalog where
  nodes := insert (tableNode dtype table dependency)
    (insert (functionNode dtype table dependency) catalog.nodes)
  mirrored := by
    intro otherType otherTable other
    simp [catalog.mirrored]
  eq_tableNode := by
    intro otherType node member starts
    rw [Finset.mem_insert, Finset.mem_insert] at member
    rcases member with rfl | rfl | present
    · have same := DDLDependencyType.tableSubscript_inj.mp (List.cons_prefix_cons.mp starts).1
      exact ⟨table, dependency, by rw [same]⟩
    · exact absurd (List.cons_prefix_cons.mp starts).1 otherType.tableSubscript_ne_functions
    · exact catalog.eq_tableNode otherType node present starts
  eq_functionNode := by
    intro otherType functionName functionHash node member starts
    rw [Finset.mem_insert, Finset.mem_insert] at member
    rcases member with rfl | rfl | present
    · exact absurd starts not_functions_prefix_tableNode
    · simp only [functionNode, List.cons_prefix_cons, DDLDependencyType.functionSubscript_inj]
        at starts
      obtain ⟨-, rfl, rfl, rfl, -⟩ := starts
      exact ⟨table, dependency.name, rfl⟩
    · exact catalog.eq_functionNode otherType functionName functionHash node present starts
  defined := by
    intro otherType otherTable other member
    rw [Finset.mem_insert, Finset.mem_insert] at member ⊢
    rcases member with same | same | present
    · obtain ⟨-, -, rfl⟩ := tableNode_inj.mp same
      exact Or.inr (Or.inr isDefined)
    · exact absurd same tableNode_ne_functionNode
    · exact Or.inr (Or.inr (catalog.defined otherType otherTable other present))

end Catalog

/-! ## DROP FUNCTION -/

/-- Why a function is not dropped. -/
inductive DropFunctionError where
  | cannotDropFunction
  | dependsOnConstraint (constraint : Option Subscript) (table : Subscript)
  | dependsOnColumn (column : Option Subscript) (table : Subscript)
  | dependsOnView (view : Subscript)
deriving DecidableEq

/-- `DROP FUNCTION`, with the hash of the parameter types. -/
structure DropFunctionStatement where
  functionName : Subscript
  functionHash : Subscript
  ifExistsSpecified : Bool

namespace DropFunctionStatement

variable (statement : DropFunctionStatement) (nodes : Finset (List Subscript))

/-- The first table, and the first constraint or column of it, that is recorded under the
function. -/
def firstDependent (dtype : DDLDependencyType) : Option (Option Subscript × Subscript) :=
  let path := [functions, statement.functionName, statement.functionHash, dtype.functionSubscript]
  (next nodes path ⊥).map fun table => (next nodes (path ++ [table]) ⊥, table)

/-- What relies on the function. -/
def dependent : Option DropFunctionError :=
  match statement.firstDependent nodes .checkConstraint with
  | some (constraint, table) => some (.dependsOnConstraint constraint table)
  | none =>
    match statement.firstDependent nodes .extractFunction with
    | some (column, table) => some (.dependsOnColumn column table)
    | none =>
      (next nodes [.text "functionviewdependency", statement.functionName,
        statement.functionHash] ⊥).map .dependsOnView

/-- The nodes after the statement. The automatic upgrade does not look for dependents. -/
def dropFunction (isAutoUpgradeOcto929 : Bool) :
    Except DropFunctionError (Finset (List Subscript)) :=
  let path := [functions, statement.functionName, statement.functionHash]
  if ∃ node ∈ nodes, path <+: node then
    match if isAutoUpgradeOcto929 then none else statement.dependent nodes with
    | some error => .error error
    | none => .ok (kill nodes path)
  else if statement.ifExistsSpecified then .ok nodes
  else .error .cannotDropFunction

/-- A function is not dropped as long as a call of it is recorded under it. -/
theorem dropFunction_of_functionNode_mem {dtype : DDLDependencyType} {table : Subscript}
    {dependency : FunctionDependency} (named : table ≠ ⊥)
    (sameName : statement.functionName = dependency.functionName)
    (sameHash : statement.functionHash = dependency.functionHash)
    (recorded : functionNode dtype table dependency ∈ nodes) :
    ∃ error, statement.dropFunction nodes false = .error error := by
  have exists_firstDependent : ∃ found, statement.firstDependent nodes dtype = some found := by
    have present : table ∈ subscripts nodes
        [functions, statement.functionName, statement.functionHash, dtype.functionSubscript] := by
      rw [mem_subscripts_iff, sameName, sameHash]
      exact ⟨_, recorded, [dependency.name], rfl⟩
    cases found : next nodes
        [functions, statement.functionName, statement.functionHash, dtype.functionSubscript] ⊥ with
    | none => exact absurd (bot_lt_iff_ne_bot.mpr named) (next_eq_none found present)
    | some first => exact ⟨_, by rw [firstDependent, found]; rfl⟩
  have exists_dependent : ∃ error, statement.dependent nodes = some error := by
    obtain ⟨found, isFound⟩ := exists_firstDependent
    unfold dependent
    cases dtype with
    | checkConstraint => exact ⟨_, by rw [isFound]⟩
    | extractFunction =>
      cases statement.firstDependent nodes .checkConstraint with
      | none => exact ⟨_, by rw [isFound]⟩
      | some constraint => exact ⟨_, rfl⟩
  obtain ⟨error, isError⟩ := exists_dependent
  refine ⟨error, ?_⟩
  have present : ∃ node ∈ nodes,
      [functions, statement.functionName, statement.functionHash] <+: node :=
    ⟨_, recorded, by rw [sameName, sameHash]; exact ⟨_, rfl⟩⟩
  simp [dropFunction, present, isError]

end DropFunctionStatement

end Octo.Schema
