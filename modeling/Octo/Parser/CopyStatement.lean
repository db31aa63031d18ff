import Mathlib

/-!
# Copies of statements and BETWEEN

`between_predicate` needs its left operand twice and takes a copy of it, because later passes change
the statement in place. `copy_sql_statement` goes through the statement by the types of its nodes:
most fields are copied, some are shared with the original or forgotten, and a type that it does not
know is a fatal error.
-/
namespace Octo.Parser

/-- The types of statements that an expression can have below it. The cells of a circular list are
nodes of their own. -/
inductive StatementType where
  | value | binary | unary | cas | casBranch | functionCall | aggregateFunction
  | coalesce | greatest | least | nullIf | array
  | columnList | columnListAlias | columnListAliasCell | join | keyword | cell
  | tableAlias | select | setOperation | tableValue | rowValue
  | columnAlias | dataTypeStruct | createTable | createView | column
deriving DecidableEq, Repr

/-- `create_table_STATEMENT` and `column_STATEMENT` are returned as they are. -/
def StatementType.neverChanges : StatementType → Bool
  | .createTable | .column => true
  | _ => false

/-- The types that do not reach the fatal error behind the `switch`. -/
def StatementType.isHandled : StatementType → Bool
  | .coalesce | .greatest | .least | .nullIf | .array => false
  | .setOperation | .tableValue | .rowValue | .createView => false
  | _ => true

mutual

/-- A pointer to an `SqlStatement`: its address, its type, its data and the pointers that it holds.
`u.bool_or_str.truth_value` stands apart from the other data; it is false for everything but a
`BOOLEAN_OR_STRING_LITERAL`. -/
inductive Statement where
  | null
  | node (address : Nat) (type : StatementType) (data : String) (truthValue : Bool)
      (fields : Fields)

/-- The pointers that a statement holds. A table alias has `table`, `alias`, `column_list` (null for
a sub-query, where it is the list of the SELECT) and `correlation_specification`; a SELECT has its
ORDER BY last; a cell of a column list alias has `column_list`, `alias` and `keywords`. -/
inductive Fields where
  | nil
  | cons (field : Statement) (rest : Fields)

end

open Statement List Option Nat

/-- What happens to a pointer of a statement that is copied. -/
inductive FieldRule where
  | copied
  | shared
  | dropped
deriving DecidableEq, Repr

/-- The rule for a field, by its position. The keywords of a column list alias are copied from the
new structure, where they are null. -/
def fieldRule : StatementType → Nat → FieldRule
  | .tableAlias, 2 => .shared
  | .tableAlias, 3 => .dropped
  | .select, 6 => .shared
  | .columnListAliasCell, 2 => .dropped
  | _, _ => .copied

mutual

/-- `copy_sql_statement`. New nodes are numbered from the second argument on; `none` is the fatal
error. The memory of a new node is zeroed, and nothing is written to its truth value. -/
def copySqlStatement : Statement → Nat → Option (Statement × Nat)
  | .null, next => some (.null, next)
  | .node address type data truthValue fields, next =>
    if type.neverChanges then some (.node address type data truthValue fields, next)
    else if type.isHandled then
      (copyFields type 0 fields (next + 1)).map fun copy =>
        (.node next type data false copy.1, copy.2)
    else none

/-- The fields of a statement, from a position on. -/
def copyFields (type : StatementType) (position : Nat) : Fields → Nat → Option (Fields × Nat)
  | .nil, next => some (.nil, next)
  | .cons field rest, next =>
    match fieldRule type position with
    | .copied =>
      (copySqlStatement field next).bind fun copy =>
        (copyFields type (position + 1) rest copy.2).map fun others =>
          (.cons copy.1 others.1, others.2)
    | .shared =>
      (copyFields type (position + 1) rest next).map fun others =>
        (.cons field others.1, others.2)
    | .dropped =>
      (copyFields type (position + 1) rest next).map fun others =>
        (.cons .null others.1, others.2)

end

/-- A comparison or a connective over two statements. -/
def binaryStatement (address : Nat) (operation : String) (left right : Statement) : Statement :=
  .node address .binary operation false (.cons left (.cons right .nil))

/-- The two comparisons of BETWEEN or NOT BETWEEN, with the operand on both sides. -/
def rangePredicate (notSpecified : Bool) (address : Nat) (left right lower upper : Statement) :
    Statement :=
  binaryStatement address (if notSpecified then "OR" else "AND")
    (binaryStatement (address + 1) (if notSpecified then "<" else ">=") left lower)
    (binaryStatement (address + 2) (if notSpecified then ">" else "<=") right upper)

/-- `between_predicate`. -/
def betweenPredicate (notSpecified : Bool) (operand lower upper : Statement) (next : Nat) :
    Option Statement :=
  (copySqlStatement operand next).map fun copy =>
    rangePredicate notSpecified copy.2 operand copy.1 lower upper

/-! ## What a copy has to be -/

mutual

/-- The statement without its addresses. -/
def Statement.shape : Statement → Statement
  | .null => .null
  | .node _ type data truthValue fields => .node 0 type data truthValue fields.shape

def Fields.shape : Fields → Fields
  | .nil => .nil
  | .cons field rest => .cons field.shape rest.shape

end

mutual

/-- The nodes that later passes can change. -/
def Statement.changeable : Statement → List Nat
  | .null => []
  | .node address type _ _ fields => if type.neverChanges then [] else address :: fields.changeable

def Fields.changeable : Fields → List Nat
  | .nil => []
  | .cons field rest => field.changeable ++ rest.changeable

end

mutual

/-- Every type below the statement is handled, and what is not copied is empty: a truth value, or a
field. -/
def Statement.Copyable : Statement → Prop
  | .null => True
  | .node _ type _ truthValue fields =>
    type.neverChanges ∨ type.isHandled ∧ truthValue = false ∧ fields.Copyable type 0

def Fields.Copyable (type : StatementType) (position : Nat) : Fields → Prop
  | .nil => True
  | .cons field rest =>
    (match fieldRule type position with
      | .copied => field.Copyable
      | .shared => field.changeable = []
      | .dropped => field = .null) ∧ rest.Copyable type (position + 1)

end

mutual

/-- A copyable statement is copied to new nodes, with the same shape. -/
theorem copySqlStatement_of_copyable (statement : Statement) (next : Nat)
    (copyable : statement.Copyable) :
    ∃ copy last, copySqlStatement statement next = some (copy, last) ∧ next ≤ last ∧
      copy.shape = statement.shape ∧ ∀ address ∈ copy.changeable, next ≤ address := by
  cases statement with
  | null => exact ⟨.null, next, rfl, le_refl next, rfl, fun _ member => by cases member⟩
  | node address type data truthValue fields =>
    rw [copySqlStatement]
    by_cases never : type.neverChanges
    · refine ⟨_, next, if_pos never, le_refl next, rfl, fun _ member => ?_⟩
      simp [changeable, never] at member
    · obtain ⟨handled, rfl, below⟩ := copyable.resolve_left never
      obtain ⟨copies, last, run, grows, same, new⟩ :=
        copyFields_of_copyable type 0 fields (next + 1) below
      refine ⟨.node next type data false copies, last, by simp [never, handled, run], by omega,
        by rw [shape, shape, same], ?_⟩
      rw [changeable, if_neg never, forall_mem_cons]
      exact ⟨le_refl _, fun other below => le_of_succ_le (new other below)⟩

theorem copyFields_of_copyable (type : StatementType) (position : Nat) (fields : Fields)
    (next : Nat) (copyable : fields.Copyable type position) :
    ∃ copies last, copyFields type position fields next = some (copies, last) ∧ next ≤ last ∧
      copies.shape = fields.shape ∧ ∀ address ∈ copies.changeable, next ≤ address := by
  cases fields with
  | nil => exact ⟨.nil, next, rfl, le_refl next, rfl, fun _ member => by cases member⟩
  | cons field rest =>
    obtain ⟨here, below⟩ := copyable
    rw [copyFields]
    cases rule : fieldRule type position with
    | copied =>
      rw [rule] at here
      obtain ⟨copy, middle, run, first, same, new⟩ :=
        copySqlStatement_of_copyable field next here
      obtain ⟨copies, last, others, second, alike, fresh⟩ :=
        copyFields_of_copyable type (position + 1) rest middle below
      refine ⟨.cons copy copies, last, by simp [run, others], le_trans first second,
        by rw [Fields.shape, Fields.shape, same, alike], forall_mem_append.2 ⟨new, ?_⟩⟩
      exact fun other there => le_trans first (fresh other there)
    | shared | dropped =>
      rw [rule] at here
      obtain ⟨copies, last, others, grows, alike, fresh⟩ :=
        copyFields_of_copyable type (position + 1) rest next below
      simp only [here, others, map_some]
      refine ⟨_, last, rfl, grows, by rw [Fields.shape, Fields.shape, alike], ?_⟩
      simpa [Fields.changeable, changeable, here] using fresh

end

theorem eq_null_of_shape {statement : Statement} (same : null.shape = statement.shape) :
    statement = .null := by
  cases statement with
  | null => rfl
  | node => simp [shape] at same

mutual

/-- A copy of the same shape with no node in common is one of a copyable statement. -/
theorem copyable_of_copySqlStatement (statement : Statement) (next : Nat) {copy : Statement}
    {last : Nat} (run : copySqlStatement statement next = some (copy, last))
    (same : copy.shape = statement.shape)
    (apart : ∀ address ∈ copy.changeable, address ∉ statement.changeable) :
    statement.Copyable := by
  cases statement with
  | null => trivial
  | node address type data truthValue fields =>
    by_cases never : type.neverChanges
    · exact .inl never
    · rw [copySqlStatement, if_neg never] at run
      split_ifs at run with handled
      obtain ⟨⟨copies, behind⟩, below, made⟩ := map_eq_some_iff.mp run
      cases made
      obtain ⟨unset, same⟩ : truthValue = false ∧ copies.shape = fields.shape := by
        simpa [shape, eq_comm] using same
      refine .inr ⟨handled, unset, copyable_of_copyFields type 0 fields (next + 1) below same ?_⟩
      · intro other member there
        simp only [changeable, if_neg never] at apart
        exact apart other (mem_cons_of_mem _ member) (mem_cons_of_mem _ there)

theorem copyable_of_copyFields (type : StatementType) (position : Nat) (fields : Fields)
    (next : Nat) {copies : Fields} {last : Nat}
    (run : copyFields type position fields next = some (copies, last))
    (same : copies.shape = fields.shape)
    (apart : ∀ address ∈ copies.changeable, address ∉ fields.changeable) :
    fields.Copyable type position := by
  cases fields with
  | nil => trivial
  | cons field rest =>
    rw [copyFields] at run
    rw [Fields.Copyable]
    cases rule : fieldRule type position with
    | copied =>
      simp only [rule, bind_eq_some_iff, map_eq_some_iff] at run
      obtain ⟨⟨copy, middle⟩, here, ⟨others, behind⟩, below, made⟩ := run
      cases made
      simp only [Fields.shape, Fields.cons.injEq] at same
      simp only [Fields.changeable, mem_append, not_or] at apart
      exact ⟨copyable_of_copySqlStatement field next here same.1 fun address member =>
          (apart address (.inl member)).1,
        copyable_of_copyFields type (position + 1) rest middle below same.2
          fun address member => (apart address (.inr member)).2⟩
    | shared | dropped =>
      simp only [rule, map_eq_some_iff] at run
      obtain ⟨⟨others, behind⟩, below, made⟩ := run
      cases made
      simp only [Fields.shape, Fields.cons.injEq] at same
      simp only [Fields.changeable, mem_append, not_or] at apart
      have others := copyable_of_copyFields type (position + 1) rest next below same.2
        fun address member => (apart address (.inr member)).2
      first
        | exact ⟨eq_nil_iff_forall_not_mem.mpr fun address member =>
          (apart address (.inl member)).1 member, others⟩
        | exact ⟨eq_null_of_shape same.1, others⟩

end

/-- BETWEEN has two independent operands of the same shape exactly when the operand is copyable. -/
theorem betweenPredicate_correct_iff (operand lower upper : Statement) (notSpecified : Bool)
    (next : Nat) (allocated : ∀ address ∈ operand.changeable, address < next) :
    (∃ copy last, copySqlStatement operand next = some (copy, last) ∧
      copy.shape = operand.shape ∧
      (∀ address ∈ copy.changeable, address ∉ operand.changeable) ∧
      ∃ ret, betweenPredicate notSpecified operand lower upper next = some ret ∧
        ret.shape = (rangePredicate notSpecified 0 operand operand lower upper).shape) ↔
      operand.Copyable := by
  constructor
  · rintro ⟨copy, last, run, same, apart, -⟩
    exact copyable_of_copySqlStatement operand next run same apart
  · intro copyable
    obtain ⟨copy, last, run, -, same, new⟩ := copySqlStatement_of_copyable operand next copyable
    refine ⟨copy, last, run, same, fun address member old => ?_,
      _, by rw [betweenPredicate, run]; rfl,
      ?_⟩
    · exact Nat.not_lt.mpr (new address member) (allocated address old)
    · simp [rangePredicate, binaryStatement, Statement.shape, Fields.shape, same]

/-- `COALESCE(a) BETWEEN 1 AND 2` ends with the fatal error, and the copy of the operand of
`'t' BETWEEN TRUE AND TRUE` is false. -/
theorem betweenPredicate_coalesce :
    betweenPredicate false
      (.node 1 .coalesce "" false (.cons (.node 2 .columnList "" false (.cons (.node 3 .cell ""
        false (.cons (.node 4 .value "a" false .nil) .nil)) .nil)) .nil))
      (.node 5 .value "1" false .nil) (.node 6 .value "2" false .nil) 7 = none ∧
    ¬∃ ret, betweenPredicate false (.node 1 .value "t" true .nil)
        (.node 2 .value "1" false .nil) (.node 3 .value "1" false .nil) 4 = some ret ∧
      ret.shape = (rangePredicate false 0 (.node 1 .value "t" true .nil)
        (.node 1 .value "t" true .nil) (.node 2 .value "1" false .nil)
        (.node 3 .value "1" false .nil)).shape := by
  refine ⟨rfl, ?_⟩
  rintro ⟨ret, run, same⟩
  cases run
  simp [rangePredicate, binaryStatement, shape, Fields.shape] at same

/-- `a + 1 BETWEEN 1 AND 2`. -/
theorem betweenPredicate_correct_addition :
    ∃ copy last, copySqlStatement
      (binaryStatement 1 "+" (.node 2 .value "a" false .nil) (.node 3 .value "1" false .nil)) 4 =
        some (copy, last) ∧ copy.changeable = [4, 5, 6] := by
  obtain ⟨copy, last, run, -, -, -⟩ := (betweenPredicate_correct_iff
    (binaryStatement 1 "+" (.node 2 .value "a" false .nil) (.node 3 .value "1" false .nil)) .null
    .null false 4 (by decide)).mpr (by simp [binaryStatement, Statement.Copyable, Fields.Copyable,
      fieldRule,
      StatementType.isHandled])
  refine ⟨copy, last, run, ?_⟩
  cases run
  rfl

end Octo.Parser
