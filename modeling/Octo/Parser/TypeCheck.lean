import Mathlib

/-!
# Types of columns and of arguments

`check_column_lists_for_type_match` goes through the columns of the two operands of a set operation.
The type of the left column decides which types the right one can have.
`function_definition_lookup` looks for the definition of a function with the types of the arguments.
If there is none, it goes through all definitions with the name and compares the M routines of those
that the arguments match.
-/
namespace Octo.Parser

open List

/-- `SqlValueType`, for the types that a column or an argument can have. -/
inductive SqlValueType where
  | boolean | integer | numeric | string | booleanOrString | nul
  | date | time | timeWithTimeZone | timestamp | timestampWithTimeZone
deriving DecidableEq, Repr

namespace SqlValueType

/-- `IS_BOOLEAN_TYPE`. -/
def isBooleanType : SqlValueType → Bool
  | boolean | booleanOrString | nul => true
  | _ => false

/-- `IS_STRING_TYPE`. -/
def isStringType : SqlValueType → Bool
  | string | booleanOrString | nul => true
  | _ => false

/-- `HAS_DATE`. -/
def hasDate : SqlValueType → Bool
  | date | timestamp | timestampWithTimeZone => true
  | _ => false

/-- `IS_TIME`. -/
def isTime : SqlValueType → Bool
  | time | timeWithTimeZone => true
  | _ => false

/-- `IS_DATE_TIME_TYPE`. -/
def isDateTimeType (type : SqlValueType) : Bool := type.hasDate || type.isTime

end SqlValueType

/-! ## Column lists -/

/-- What the `switch` makes of two columns. -/
structure ColumnCheck where
  isTypeMismatch : Bool
  left : SqlValueType
  right : SqlValueType
  fixedType : Bool

/-- The `switch` on the type of the left column. A string literal that could be a boolean gets the
type of the other side, and a string the type of a date or a time, to which it is cast. -/
def checkColumn (left right : SqlValueType) : ColumnCheck :=
  let isEither := decide (right = .booleanOrString)
  match left with
  | .boolean => ⟨!right.isBooleanType, left, if isEither then .boolean else right, isEither⟩
  | .integer | .numeric =>
    ⟨right ≠ .nul && right ≠ .integer && right ≠ .numeric, left,
      if isEither then .boolean else right, isEither⟩
  | .string =>
    ⟨!right.isStringType && !right.isDateTimeType, if right.isDateTimeType then right else left,
      if isEither then .string else right, isEither⟩
  | .booleanOrString =>
    match right with
    | .boolean | .string => ⟨false, right, right, true⟩
    | .booleanOrString | .nul => ⟨false, left, right, false⟩
    | _ => ⟨true, left, right, false⟩
  | .nul => ⟨false, left, right, false⟩
  | .date | .timestamp | .timestampWithTimeZone => ⟨!right.hasDate, left, right, false⟩
  | .time | .timeWithTimeZone => ⟨!right.isTime, left, right, false⟩

/-- What the loop keeps: the types of the first mismatch, those of the columns of the set operation,
and whether a type was fixed. -/
structure ColumnsCheck where
  mismatch : Option (SqlValueType × SqlValueType)
  colTypeList : List SqlValueType
  fixedType : Bool

/-- One turn of the loop. Behind a mismatch the types are not looked at. -/
def checkStep (state : ColumnsCheck) (column : SqlValueType × SqlValueType) : ColumnsCheck :=
  let check := if state.mismatch.isNone then checkColumn column.1 column.2
    else ⟨false, column.1, column.2, false⟩
  { mismatch := if check.isTypeMismatch then some (check.left, check.right) else state.mismatch
    colTypeList := state.colTypeList ++ [if column.1 = .nul then check.right else check.left]
    fixedType := state.fixedType || check.fixedType }

/-- `ERR_SETOPER_NUMCOLS_MISMATCH` and `ERR_SETOPER_TYPE_MISMATCH`. -/
inductive SetoperError where
  | numcolsMismatch
  | typeMismatch (left right : SqlValueType)

/-- `check_column_lists_for_type_match` for a set operation. -/
def checkColumnListsForTypeMatch (left right : List SqlValueType) :
    Except SetoperError ColumnsCheck :=
  let state := (left.zip right).foldl checkStep ⟨none, [], false⟩
  if left.length ≠ right.length then .error .numcolsMismatch
  else
    match state.mismatch with
    | some (left, right) => .error (.typeMismatch left right)
    | none => .ok state

/-- A set operation with these columns in its operands is accepted. -/
def Accepts (columns : List (SqlValueType × SqlValueType)) : Prop :=
  ∃ state, checkColumnListsForTypeMatch (columns.map Prod.fst) (columns.map Prod.snd) = .ok state

/-- The loop ends without a mismatch if it comes to none. -/
theorem mismatch_foldl_checkStep (columns : List (SqlValueType × SqlValueType))
    (state : ColumnsCheck) :
    (columns.foldl checkStep state).mismatch = none ↔ state.mismatch = none ∧
      ∀ column ∈ columns, (checkColumn column.1 column.2).isTypeMismatch = false := by
  induction columns generalizing state with
  | nil => simp
  | cons column columns ih =>
    have step : (checkStep state column).mismatch = none ↔ state.mismatch = none ∧
        (checkColumn column.1 column.2).isTypeMismatch = false := by
      unfold checkStep
      cases found : state.mismatch <;> simp
    rw [foldl_cons, ih, step, forall_mem_cons, and_assoc]

theorem accepts_iff {columns : List (SqlValueType × SqlValueType)} :
    Accepts columns ↔
      ∀ column ∈ columns, (checkColumn column.1 column.2).isTypeMismatch = false := by
  have loop := mismatch_foldl_checkStep columns ⟨none, [], false⟩
  rw [eq_self_iff_true, true_and] at loop
  rw [← loop, Accepts, checkColumnListsForTypeMatch, zip_map', map_id'' fun _ => rfl]
  cases (columns.foldl checkStep ⟨none, [], false⟩).mismatch <;> simp

/-- The types that can stand beside each other by the rules of the source's comment, whichever of
them is on the left. -/
def isCompatible (left right : SqlValueType) : Bool :=
  left = .nul || right = .nul ||
    (left = .integer || left = .numeric) && (right = .integer || right = .numeric) ||
    left.isBooleanType && right.isBooleanType || left.isStringType && right.isStringType ||
    left.hasDate && right.hasDate || left.isTime && right.isTime ||
    left = .string && right.isDateTimeType || left.isDateTimeType && right = .string

/-- A date or a time on the left of a string or NULL. -/
def isDateFirst (column : SqlValueType × SqlValueType) : Bool :=
  column.1.isDateTimeType && (column.2 = .string || column.2 = .nul)

/-- The operands can be exchanged, and columns with NULL on a side do not matter. -/
def AcceptsFairly (columns : List (SqlValueType × SqlValueType)) : Prop :=
  (Accepts columns ↔ Accepts (columns.map Prod.swap)) ∧
    (Accepts columns ↔ Accepts (columns.filter fun column => column.1 ≠ .nul && column.2 ≠ .nul))

/-- The `switch` forgets two of the rules, on one side. -/
theorem isTypeMismatch_iff (left right : SqlValueType) :
    (checkColumn left right).isTypeMismatch = false ↔
      isCompatible left right = true ∧ isDateFirst (left, right) = false := by
  cases left <;> cases right <;> decide

theorem isCompatible_comm (left right : SqlValueType) :
    isCompatible left right = isCompatible right left := by
  cases left <;> cases right <;> decide

theorem isCompatible_of_nul {left right : SqlValueType} (isNul : left = .nul ∨ right = .nul) :
    isCompatible left right = true := by
  rcases isNul with rfl | rfl
  · rfl
  · rw [isCompatible_comm]
    rfl

theorem accepts_iff_isCompatible {columns : List (SqlValueType × SqlValueType)} :
    Accepts columns ↔ (∀ column ∈ columns, isCompatible column.1 column.2 = true) ∧
      ¬∃ column ∈ columns, isDateFirst column = true := by
  simp only [accepts_iff, isTypeMismatch_iff, not_exists, not_and, Bool.not_eq_true]
  exact forall₂_and

theorem isDateFirst_iff {column : SqlValueType × SqlValueType} : isDateFirst column = true ↔
    column.1.isDateTimeType = true ∧ (column.2 = .string ∨ column.2 = .nul) := by
  simp [isDateFirst]

/-- Without the columns that have NULL on a side. -/
theorem accepts_filter_iff {columns : List (SqlValueType × SqlValueType)} :
    Accepts (columns.filter fun column => column.1 ≠ .nul && column.2 ≠ .nul) ↔
      (∀ column ∈ columns, isCompatible column.1 column.2 = true) ∧
        ¬∃ column ∈ columns, isDateFirst column = true ∧ column.2 = .string := by
  rw [accepts_iff_isCompatible]
  refine and_congr ⟨fun kept column member => ?_, fun all column member =>
    all column (mem_of_mem_filter member)⟩ (not_congr (exists_congr fun column => ?_))
  · by_cases isNul : column.1 = .nul ∨ column.2 = .nul
    · exact isCompatible_of_nul isNul
    · exact kept column (mem_filter.mpr ⟨member, by simpa using isNul⟩)
  · rw [mem_filter, and_assoc]
    refine and_congr_right fun _ => ?_
    obtain ⟨left, right⟩ := column
    cases left <;> cases right <;> decide

/-- The operands of a set operation can be exchanged, and NULL never causes an error, exactly if it
is rejected for two types that are incompatible on either side, or if a date or a time stands left
of a string or NULL just if one stands right of them as well, and left of NULL only beside a column
where one stands left of a string. -/
theorem acceptsFairly_iff (columns : List (SqlValueType × SqlValueType)) :
    AcceptsFairly columns ↔ (∃ column ∈ columns, isCompatible column.1 column.2 = false) ∨
      ((∃ column ∈ columns, isDateFirst column = true) ↔
        ∃ column ∈ columns, isDateFirst column.swap = true) ∧
      ((∃ column ∈ columns, isDateFirst column = true ∧ column.2 = .nul) →
        ∃ column ∈ columns, isDateFirst column = true ∧ column.2 = .string) := by
  have swapped : Accepts (columns.map Prod.swap) ↔
      (∀ column ∈ columns, isCompatible column.1 column.2 = true) ∧
        ¬∃ column ∈ columns, isDateFirst column.swap = true := by
    rw [accepts_iff_isCompatible, forall_mem_map]
    simp only [mem_map, exists_exists_and_eq_and, Prod.fst_swap, Prod.snd_swap,
      isCompatible_comm]
  rw [AcceptsFairly, swapped, accepts_filter_iff, accepts_iff_isCompatible]
  by_cases all : ∀ column ∈ columns, isCompatible column.1 column.2 = true
  · have none : ¬∃ column ∈ columns, isCompatible column.1 column.2 = false := by simpa using all
    have sides : (∃ column ∈ columns, isDateFirst column = true) ↔
        (∃ column ∈ columns, isDateFirst column = true ∧ column.2 = .nul) ∨
          ∃ column ∈ columns, isDateFirst column = true ∧ column.2 = .string := by
      simp only [← exists_or, ← and_or_left]
      refine exists_congr fun column => and_congr_right fun _ => ?_
      refine ⟨fun first => ⟨first, (isDateFirst_iff.mp first).2.symm⟩, And.left⟩
    rw [or_iff_right none, and_iff_right all, and_iff_right all, and_iff_right all, not_iff_not,
      not_iff_not, sides]
    exact and_congr_right fun _ => or_iff_right_iff_imp
  · have rejected : ∃ column ∈ columns, isCompatible column.1 column.2 = false := by
      simpa using all
    exact iff_of_true ⟨iff_of_false (all ·.1) (all ·.1), iff_of_false (all ·.1) (all ·.1)⟩
      (.inl rejected)

/-- `SELECT NULL` and `SELECT '2020-01-01'` with a column of type DATE, in both orders. -/
theorem accepts_date_one_sided :
    (Accepts [(.nul, .date)] ∧ ¬Accepts [(.date, .nul)]) ∧
      Accepts [(.string, .date)] ∧ ¬Accepts [(.date, .string)] := by
  simp only [accepts_iff]
  decide

/-! ## Function definitions -/

/-- `SqlFunction`. -/
structure SqlFunction where
  parameterTypeList : List SqlValueType
  extrinsicFunction : String
  returnType : SqlValueType
deriving DecidableEq, Repr

/-- `FunctionMatchContext`. -/
structure MatchContext where
  bestMatch : Option SqlFunction
  numMatches : Nat

/-- What is hashed for an exact match: NULL is taken for a string. -/
def exactTypes (argTypes : List SqlValueType) : List SqlValueType :=
  argTypes.map fun type => if type = .nul then .string else type

/-- The `switch` on the type of an argument. -/
def matchesType : SqlValueType → SqlValueType → Bool
  | .nul, _ => true
  | .integer, valueType => valueType = .integer || valueType = .numeric
  | argType, valueType => argType = valueType

/-- The loop over the parameters of a function. -/
def matchesParameters : List SqlValueType → List SqlValueType → Bool
  | [], [] => true
  | argType :: argTypes, valueType :: valueTypes =>
    matchesType argType valueType && matchesParameters argTypes valueTypes
  | _, _ => false

/-- The loop over the definitions. It returns at the second M routine. -/
def lookupLoop (argTypes : List SqlValueType) : List SqlFunction → MatchContext → MatchContext
  | [], context => context
  | function :: rest, context =>
    if !matchesParameters argTypes function.parameterTypeList then lookupLoop argTypes rest context
    else if context.bestMatch.any (·.extrinsicFunction = function.extrinsicFunction) then
      lookupLoop argTypes rest context
    else if 1 < context.numMatches + 1 then ⟨context.bestMatch, context.numMatches + 1⟩
    else lookupLoop argTypes rest ⟨some function, context.numMatches + 1⟩

/-- `function_definition_lookup`, with the definitions in the order in which they are visited. -/
def functionDefinitionLookup (argTypes : List SqlValueType) (visited : List SqlFunction) :
    MatchContext :=
  match visited.find? (·.parameterTypeList = exactTypes argTypes) with
  | some function => ⟨some function, 1⟩
  | none =>
    if argTypes.all fun type => type ≠ .nul && type ≠ .integer then ⟨none, 0⟩
    else lookupLoop argTypes visited ⟨none, 0⟩

/-- A call with NULL or an integer among its arguments, and the definitions with its name. Two
definitions with the same parameters replace each other. -/
structure FunctionCall where
  argTypes : List SqlValueType
  ambiguous : (argTypes.all fun type => type ≠ .nul && type ≠ .integer) = false
  definitions : List SqlFunction
  distinct : (definitions.map SqlFunction.parameterTypeList).Nodup

namespace FunctionCall

variable (call : FunctionCall)

/-- The definitions that the arguments match. -/
def matching : List SqlFunction :=
  call.definitions.filter (matchesParameters call.argTypes ·.parameterTypeList)

/-- A definition has the types of the arguments. -/
def HasExact : Prop :=
  exactTypes call.argTypes ∈ call.definitions.map SqlFunction.parameterTypeList

/-- Two definitions that the arguments match name different M routines. -/
def Differs : Prop :=
  ∃ first ∈ call.matching, ∃ second ∈ call.matching,
    first.extrinsicFunction ≠ second.extrinsicFunction

/-- Ambiguity is reported if there is no exact match and two matches differ, a function is found if
one matches, and its M routine and its type are the same for all orders of the definitions. -/
def LooksUp : Prop :=
  ∀ order, order.Perm call.definitions →
    let found := functionDefinitionLookup call.argTypes order
    (1 < found.numMatches ↔ ¬call.HasExact ∧ call.Differs) ∧
    (found.bestMatch.isSome ↔ call.matching ≠ []) ∧
    (¬1 < found.numMatches → ∀ other, other.Perm call.definitions →
      (functionDefinitionLookup call.argTypes other).bestMatch.map
          (fun function => (function.extrinsicFunction, function.returnType)) =
        found.bestMatch.map fun function => (function.extrinsicFunction, function.returnType))

end FunctionCall

/-- The verdict on the definitions that come into question. -/
def verdict : List SqlFunction → MatchContext
  | [] => ⟨none, 0⟩
  | best :: others => ⟨some best,
      if ∀ function ∈ others, best.extrinsicFunction = function.extrinsicFunction then 1 else 2⟩

theorem lookupLoop_eq (argTypes : List SqlValueType) (visited : List SqlFunction) :
    let matching := visited.filter (matchesParameters argTypes ·.parameterTypeList)
    lookupLoop argTypes visited ⟨none, 0⟩ = verdict matching ∧
      ∀ best, lookupLoop argTypes visited ⟨some best, 1⟩ = verdict (best :: matching) := by
  induction visited with
  | nil => exact ⟨rfl, fun best => rfl⟩
  | cons function rest ih =>
    obtain ⟨ihNone, ihSome⟩ := ih
    by_cases isMatch : matchesParameters argTypes function.parameterTypeList
    · refine ⟨by simp [lookupLoop, isMatch, ihSome], fun best => ?_⟩
      by_cases same : best.extrinsicFunction = function.extrinsicFunction <;>
        simp [lookupLoop, isMatch, same, ihSome, verdict]
    · simp [lookupLoop, isMatch, ihNone, ihSome]

theorem matchesParameters_exactTypes (argTypes : List SqlValueType) :
    matchesParameters argTypes (exactTypes argTypes) = true := by
  induction argTypes with
  | nil => rfl
  | cons type types ih =>
    change (matchesType type _ && matchesParameters types (exactTypes types)) = true
    rw [ih]
    cases type <;> rfl

theorem verdict_ambiguous_iff (matching : List SqlFunction) :
    1 < (verdict matching).numMatches ↔ ∃ first ∈ matching, ∃ second ∈ matching,
      first.extrinsicFunction ≠ second.extrinsicFunction := by
  cases matching with
  | nil => simp [verdict]
  | cons best others =>
    rw [verdict]
    dsimp only
    split
    case isTrue same =>
      refine iff_of_false (by decide) ?_
      rintro ⟨first, inFirst, second, inSecond, differs⟩
      have all (function) (member : function ∈ best :: others) :
          best.extrinsicFunction = function.extrinsicFunction :=
        (mem_cons.mp member).elim (fun isBest => by rw [isBest]) (same function)
      exact differs ((all first inFirst).symm.trans (all second inSecond))
    case isFalse differ =>
      simp only [not_forall] at differ
      obtain ⟨function, member, differs⟩ := differ
      exact iff_of_true (by decide)
        ⟨best, mem_cons_self, function, mem_cons_of_mem _ member, differs⟩

theorem verdict_bestMatch (matching : List SqlFunction) :
    (verdict matching).bestMatch = matching.head? := by
  cases matching <;> rfl

theorem head?_map_eq_of_perm {α β : Type} {key : α → β} {left right : List α}
    (perm : left.Perm right) (same : ∀ a ∈ right, ∀ b ∈ right, key a = key b) :
    left.head?.map key = right.head?.map key := by
  cases left with
  | nil => rw [perm.nil_eq]
  | cons a left =>
    cases right with
    | nil => exact absurd perm.eq_nil (cons_ne_nil a left)
    | cons b right =>
      exact congrArg some (same a (perm.mem_iff.mp mem_cons_self) b mem_cons_self)

namespace FunctionCall

variable {call : FunctionCall} {order : List SqlFunction}

/-- Each order of the definitions leads to the one with the types of the arguments. -/
theorem lookup_of_hasExact (exact : call.HasExact) : ∃ function ∈ call.matching,
    ∀ order, order.Perm call.definitions →
      functionDefinitionLookup call.argTypes order = ⟨some function, 1⟩ := by
  obtain ⟨function, member, types⟩ := mem_map.mp exact
  refine ⟨function, mem_filter.mpr ⟨member, ?_⟩, fun order perm => ?_⟩
  · rw [types, matchesParameters_exactTypes]
  · rw [functionDefinitionLookup]
    cases found : order.find? (·.parameterTypeList = exactTypes call.argTypes) with
    | none =>
      have absent := find?_eq_none.mp found function (perm.mem_iff.mpr member)
      exact absurd (decide_eq_true types) absent
    | some other =>
      have sameTypes := find?_some found
      rw [decide_eq_true_iff] at sameTypes
      have inDefinitions := perm.mem_iff.mp (mem_of_find?_eq_some found)
      rw [inj_on_of_nodup_map call.distinct inDefinitions member (sameTypes.trans types.symm)]

theorem lookup_of_not_hasExact (inexact : ¬call.HasExact) (perm : order.Perm call.definitions) :
    functionDefinitionLookup call.argTypes order =
      verdict (order.filter (matchesParameters call.argTypes ·.parameterTypeList)) := by
  have absent : order.find? (·.parameterTypeList = exactTypes call.argTypes) = none := by
    refine find?_eq_none.mpr fun function member types => inexact ?_
    exact mem_map.mpr ⟨function, perm.mem_iff.mp member, of_decide_eq_true types⟩
  rw [functionDefinitionLookup, absent, call.ambiguous]
  exact (lookupLoop_eq call.argTypes order).1

/-- A matching definition is the one found in the order that has it first. -/
theorem exists_order (inexact : ¬call.HasExact) {function : SqlFunction}
    (member : function ∈ call.matching) : ∃ order, order.Perm call.definitions ∧
      (functionDefinitionLookup call.argTypes order).bestMatch = some function := by
  obtain ⟨inDefinitions, isMatch⟩ := mem_filter.mp member
  have perm := (perm_cons_erase inDefinitions).symm
  refine ⟨_, perm, ?_⟩
  rw [lookup_of_not_hasExact inexact perm, filter_cons, if_pos isMatch]
  rfl

/-- The lookup does what it should exactly if there is an exact match or an ambiguity, or if all
definitions that match have one return type: one M routine can stand in several definitions. -/
theorem looksUp_iff (call : FunctionCall) : call.LooksUp ↔ call.HasExact ∨ call.Differs ∨
    ∀ first ∈ call.matching, ∀ second ∈ call.matching, first.returnType = second.returnType := by
  by_cases exact : call.HasExact
  · obtain ⟨function, member, lookup⟩ := lookup_of_hasExact exact
    refine iff_of_true (fun order perm => ?_) (.inl exact)
    rw [lookup order perm]
    refine ⟨by simp [exact], by simp [ne_nil_of_mem member], fun _ other permOther => ?_⟩
    rw [lookup other permOther]
  rw [or_iff_right exact]
  have ambiguous (order : List SqlFunction) (perm : order.Perm call.definitions) :
      1 < (functionDefinitionLookup call.argTypes order).numMatches ↔ call.Differs := by
    rw [lookup_of_not_hasExact exact perm, verdict_ambiguous_iff]
    simp only [Differs, (perm.filter _).mem_iff, matching]
  constructor
  · intro looksUp
    refine or_iff_not_imp_left.mpr fun agree first inFirst second inSecond => ?_
    obtain ⟨order, perm, found⟩ := exists_order exact inFirst
    obtain ⟨other, permOther, foundOther⟩ := exists_order exact inSecond
    have same := (looksUp order perm).2.2 (by rwa [ambiguous order perm]) other permOther
    rw [found, foundOther] at same
    exact (Prod.mk.inj (Option.some.inj same)).2.symm
  · intro types order perm
    refine ⟨by simp [ambiguous order perm, exact], ?_, fun one other permOther => ?_⟩
    · rw [lookup_of_not_hasExact exact perm, verdict_bestMatch]
      simp [matching, perm.mem_iff]
    · rw [ambiguous order perm] at one
      rw [lookup_of_not_hasExact exact perm, lookup_of_not_hasExact exact permOther,
        verdict_bestMatch, verdict_bestMatch]
      refine head?_map_eq_of_perm ((permOther.trans perm.symm).filter _) fun first inFirst second
        inSecond => ?_
      rw [(perm.filter _).mem_iff] at inFirst inSecond
      exact Prod.ext (by_contra fun differ => one ⟨first, inFirst, second, inSecond, differ⟩)
        (types.resolve_left one first inFirst second inSecond)

end FunctionCall

/-- Two definitions of a function of one argument, for an integer and for a number. -/
def twoDefinitions (narrow wide : String) : List SqlFunction :=
  [⟨[.integer], narrow, .integer⟩, ⟨[.numeric], wide, .numeric⟩]

theorem nodup_twoDefinitions (narrow wide : String) :
    ((twoDefinitions narrow wide).map SqlFunction.parameterTypeList).Nodup := by
  simp [twoDefinitions]

theorem ambiguous_nul :
    ([SqlValueType.nul].all fun type => type ≠ .nul && type ≠ .integer) = false :=
  rfl

/-- The call of such a function with NULL. -/
def callWithNull (narrow wide : String) : FunctionCall :=
  ⟨[.nul], ambiguous_nul, twoDefinitions narrow wide, nodup_twoDefinitions narrow wide⟩

/-- With two M routines the ambiguity is found. -/
theorem looksUp_iff_callWithNull : (callWithNull "$$f^r" "$$g^r").LooksUp :=
  (FunctionCall.looksUp_iff _).mpr (.inr (.inl
    ⟨⟨[.integer], "$$f^r", .integer⟩, by decide, ⟨[.numeric], "$$g^r", .numeric⟩, by decide,
      by decide⟩))

/-- With one M routine the type of the result depends on the order of the definitions. -/
theorem lookup_depends_on_order : ¬(callWithNull "$$f^r" "$$f^r").LooksUp := by
  intro looksUp
  have same := (looksUp _ (Perm.refl _)).2.2 (by decide) _ (Perm.swap _ _ [])
  revert same
  decide

end Octo.Parser
