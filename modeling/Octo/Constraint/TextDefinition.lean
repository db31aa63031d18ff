import Octo.Constraint.GrammarSound
import Octo.Constraint.ReadBack

/-!
# The text definition of a CHECK constraint

The catalog keeps the text that `emit_check_constraint` writes, and an automatic upgrade reads it
again. A statement comes back exactly when its leaves do and no WHEN is written together with a word
before it. That this is enough is `reparse_emitCheckConstraint`. That it is necessary is an account:
the text of a leaf with a quote inside is too short for the tokens of that leaf, and a text with a
lost WHEN has fewer of them than the statement has branches.
-/
namespace Octo.Constraint

open Octo.Dml (DateTimeFormat)
open List SqlStatement

variable {validateDateTimeValue : DateTimeType → DateTimeFormat → List Char → Bool}

/-! ## The type check keeps leaves and branches -/

/-- The statements that are leaves. -/
def IsLeaf : SqlStatement → Prop
  | .value _ | .parmlessCall _ => True
  | .functionCall _ parameters => parameters = .last (.value (.literal .integerLiteral ['0']))
  | _ => False

mutual

theorem leaves_asParsed (statement : SqlStatement) :
    (∀ leaf ∈ leaves statement, IsLeaf leaf) ∧ leaves statement.asParsed = leaves statement ∧
      whens statement.asParsed = whens statement := by
  cases statement with
  | value | parmlessCall => exact ⟨forall_mem_singleton.2 trivial, rfl, rfl⟩
  | coerce operand _ | unary _ operand | booleanIs _ operand _ => exact leaves_asParsed operand
  | binary _ left right | nullIf left right =>
    simp +contextual [asParsed, leaves, whens, or_imp, leaves_asParsed left,
      leaves_asParsed right]
  | booleanIn _ operand list =>
    simp +contextual [asParsed, leaves, whens, or_imp, leaves_asParsed operand,
      cells_asParsed list]
  | functionCall _ arguments =>
    obtain ⟨areLeaves, sameLeaves, sameWhens⟩ := cells_asParsed arguments
    exact ⟨forall_mem_cons.2 ⟨rfl, areLeaves⟩, congrArg (_ :: ·) sameLeaves, sameWhens⟩
  | coalesce arguments | greatest arguments | least arguments => exact cells_asParsed arguments
  | cas value branches optionalElse =>
    simp +contextual [asParsed, leaves, whens, or_imp, pointer_asParsed value,
      branches_asParsed branches, pointer_asParsed optionalElse]

theorem pointer_asParsed (pointer : SqlPointer) :
    (∀ leaf ∈ leavesOfPointer pointer, IsLeaf leaf) ∧
      leavesOfPointer pointer.asParsed = leavesOfPointer pointer ∧
      whensOfPointer pointer.asParsed = whensOfPointer pointer := by
  cases pointer with
  | null => exact ⟨forall_mem_nil _, rfl, rfl⟩
  | pointsTo statement => exact leaves_asParsed statement

theorem cells_asParsed (list : SqlColumnList) :
    (∀ leaf ∈ leavesOfCells list, IsLeaf leaf) ∧
      leavesOfCells list.asParsed = leavesOfCells list ∧
      whensOfCells list.asParsed = whensOfCells list := by
  cases list with
  | last value => exact leaves_asParsed value
  | cons value next =>
    simp +contextual [SqlColumnList.asParsed, leavesOfCells, whensOfCells, or_imp,
      leaves_asParsed value, cells_asParsed next]

theorem branches_asParsed (branches : SqlCaseBranch) :
    (∀ leaf ∈ leavesOfBranches branches, IsLeaf leaf) ∧
      leavesOfBranches branches.asParsed = leavesOfBranches branches ∧
      whensOfBranches branches.asParsed = whensOfBranches branches := by
  cases branches with
  | last condition value =>
    simp +contextual [SqlCaseBranch.asParsed, leavesOfBranches, whensOfBranches, or_imp,
      leaves_asParsed condition, leaves_asParsed value]
  | cons condition value next =>
    simp +contextual [SqlCaseBranch.asParsed, leavesOfBranches, whensOfBranches, or_imp,
      leaves_asParsed condition, leaves_asParsed value, branches_asParsed next]

end

/-! ## Written branches -/

/-- The values whose last word takes the WHEN behind it. -/
def swallows (value : SqlStatement) : Bool :=
  lastWord value != []

/-- Tokens without a BETWEEN that have a WHEN for each branch, apart from those that are lost. -/
structure Counts (used : List Token) (values : List SqlStatement) (branches : Nat) : Prop where
  noBetween : .keyword .BETWEEN ∉ used
  count : used.count (.keyword .WHEN) + values.countP swallows = branches

/-- The tokens of operators, brackets and keywords. -/
def quietTokens (used : List Token) : Bool :=
  used.all fun token => token != .keyword .WHEN && token != .keyword .BETWEEN

variable {used : List Token} {word : List Char} {values : List SqlStatement} {branches : Nat}

/-- Tokens without branches: no WHEN and no BETWEEN. -/
theorem counts_of_quiet (quiet : quietTokens used) : Counts used [] 0 := by
  have other (token) (member : token ∈ used) := all_eq_true.1 quiet token member
  refine ⟨fun member => ?_, count_eq_zero_of_not_mem fun member => ?_⟩
  · simpa using other _ member
  · simpa using other _ member

namespace Counts

variable {first second : List Token} {left right : List SqlStatement}
variable {leftBranches rightBranches : Nat}

theorem append (counts : Counts first left leftBranches)
    (countsRight : Counts second right rightBranches) :
    Counts (first ++ second) (left ++ right) (leftBranches + rightBranches) := by
  constructor
  · simp [counts.noBetween, countsRight.noBetween]
  · rw [count_append, countP_append, ← counts.count, ← countsRight.count]
    omega

theorem before (counts : Counts second values branches) (quiet : quietTokens first) :
    Counts (first ++ second) values branches := by
  have := (counts_of_quiet quiet).append counts
  rwa [Nat.zero_add] at this

theorem after (counts : Counts first values branches) (quiet : quietTokens second) :
    Counts (first ++ second) values branches := by
  have := counts.append (counts_of_quiet quiet)
  rwa [append_nil] at this

theorem cons (counts : Counts used values branches) (token : Token) (quiet : quietTokens [token]) :
    Counts (token :: used) values branches :=
  counts.before quiet

theorem perm (counts : Counts used left branches) (same : left.Perm right) :
    Counts used right branches :=
  ⟨counts.noBetween, by rw [← same.countP_eq, counts.count]⟩

theorem when (counts : Counts used values branches) :
    Counts (.keyword .WHEN :: used) values (1 + branches) := by
  refine ⟨?_, ?_⟩
  · simp [counts.noBetween]
  · rw [count_cons_self, ← counts.count]
    omega

end Counts

theorem keyword_of_mem_keywordsFrom {letter : Char} {entry : String × Keyword}
    (member : entry ∈ keywordsFrom letter) :
    (entry.2 = .WHEN → entry.1 = "WHEN") ∧ (entry.2 = .BETWEEN → entry.1 = "BETWEEN") := by
  unfold keywordsFrom at member
  split at member <;> revert entry <;> decide

/-- The words that are one of the two keywords. -/
theorem upper_of_wordToken :
    (wordToken word = .keyword .WHEN → upper word = "WHEN".toList) ∧
      (wordToken word = .keyword .BETWEEN → upper word = "BETWEEN".toList) := by
  unfold wordToken
  split
  case h_1 keyword found =>
    obtain ⟨entry, isEntry, rfl⟩ := Option.map_eq_some_iff.1 found
    have spelled : entry.1.toList = upper word := by simpa using find?_some isEntry
    have names := keyword_of_mem_keywordsFrom (mem_of_find?_eq_some isEntry)
    rw [← spelled]
    refine ⟨fun same => ?_, fun same => ?_⟩
    · rw [names.1 (Token.keyword.inj same)]
    · rw [names.2 (Token.keyword.inj same)]
  case h_2 =>
    split <;> simp

/-- A part of a name is neither of the two keywords. -/
theorem quietTokens_of_isPlain {part : List Char} (plain : isPlain part) :
    quietTokens [wordToken part] := by
  rw [isPlain] at plain
  by_contra loud
  have keyword : wordToken part = .keyword .WHEN ∨ wordToken part = .keyword .BETWEEN := by
    simpa [quietTokens, or_iff_not_imp_left] using loud
  obtain same | same := keyword <;> simp [same, columnName] at plain

theorem quiet_append {first second : List Token}
    (quiet : quietTokens first ∧ quietTokens second) : quietTokens (first ++ second) :=
  all_append.trans (Bool.and_eq_true_iff.2 quiet)

theorem quiet_wordTokens (quiet : quietTokens [wordToken word]) :
    quietTokens (wordTokens word) := by
  unfold wordTokens
  split
  · rfl
  · exact quiet

theorem quiet_pathBody {parts : List (List Char)}
    (quiet : ∀ part ∈ parts, quietTokens [wordToken part]) : quietTokens (pathBody parts) := by
  induction parts using pathBody.induct with
  | case1 part next parts ih =>
    obtain ⟨quietPart, quietParts⟩ := forall_mem_cons.1 quiet
    simp_all [pathBody, quietTokens]
  | case2 parts short =>
    rw [pathBody]
    · rfl
    · exact short

variable {name : Name} {statement leaf : SqlStatement}

/-- A name whose words are not keywords. -/
theorem quiet_name (quiet : name.isDoubleQuoted = false →
      ∀ part ∈ nameParts name.text, quietTokens [wordToken part]) :
    quietTokens (nameBody name) ∧ quietTokens (wordTokens (nameLast name)) := by
  unfold nameBody nameLast
  cases quoted : name.isDoubleQuoted with
  | true => exact ⟨rfl, rfl⟩
  | false =>
    have words := quiet quoted
    refine ⟨quiet_pathBody words, quiet_wordTokens ?_⟩
    cases parts : nameParts name.text with
    | nil => decide
    | cons part others =>
      rw [parts] at words
      rw [getLastD_cons]
      refine words _ ?_
      cases others using List.reverseRecOn with
      | nil | append_singleton => simp

theorem quiet_name_of_printable {limit : Nat} (printable : NamePrintable limit name) :
    quietTokens (nameBody name) ∧ quietTokens (wordTokens (nameLast name)) := by
  refine quiet_name fun unquoted part member => ?_
  rw [NamePrintable, unquoted] at printable
  exact quietTokens_of_isPlain (printable.2 part member)

theorem quiet_parmlessName (printable : LeafPrintable (.parmlessCall name)) :
    quietTokens (nameBody name) ∧ quietTokens (wordTokens (nameLast name)) := by
  obtain path | ⟨unquoted, isWord, parenless⟩ := printable
  · exact quiet_name_of_printable path
  · refine quiet_name fun _ part member => ?_
    rw [nameParts_of_isWord isWord, mem_singleton] at member
    rw [member, parenless]
    rfl

theorem quiet_type (type : CoercedType) :
    quietTokens (typeBody type) ∧ quietTokens (wordTokens (typeLast type)) := by
  have sizes (list : List Size) : quietTokens (sizesTokens list) := by
    cases list with
    | nil => rfl
    | cons size scale => simp [quietTokens, sizesTokens, sizeToken]
  have words : ∀ word ∈ ["BOOLEAN", "INTEGER", "NUMERIC", "VARCHAR"],
      quietTokens [wordToken word.toList] := by
    decide
  have word : quietTokens [wordToken (getUserVisibleTypeString type)] := by
    cases type with
    | dateTime type => cases type <;> decide
    | boolean => exact words "BOOLEAN" (by decide)
    | integer => exact words "INTEGER" (by decide)
    | numeric => exact words "NUMERIC" (by decide)
    | string => exact words "VARCHAR" (by decide)
  refine ⟨?_, ?_⟩
  · unfold typeBody
    split
    · rfl
    · rfl
    · split
      · rfl
      · have := sizes type.sizes
        simp_all [quietTokens]
  · unfold typeLast
    split
    · rfl
    · rfl
    · split
      · exact quiet_wordTokens word
      · rfl

theorem quiet_primary (primary : BooleanPrimary) : quietTokens (wordTokens primary.text) := by
  refine quiet_wordTokens ?_
  rcases primary with _ | (_ | _ | _) <;> decide

/-- The last word of a text is not one of the two keywords. -/
theorem quiet_lastWord (printable : ∀ leaf ∈ leaves statement, LeafPrintable leaf) :
    quietTokens (wordTokens (lastWord statement)) := by
  unfold lastWord
  split
  case h_1 primary => exact quiet_primary primary
  case h_2 name =>
    have leaf : LeafPrintable (.value (.columnReference name)) :=
      printable _ (mem_singleton_self _)
    exact (quiet_name_of_printable leaf.1).2
  case h_3 type => exact (quiet_type type).2
  case h_4 => decide
  case h_5 => rfl

/-- The last word of a value with the WHEN behind it: the keyword, when there is no word. -/
theorem Counts.joint (counts : Counts (.keyword .WHEN :: used) values branches)
    (value : SqlStatement) :
    Counts (wordToken (lastWord value ++ "WHEN".toList) :: used) (value :: values) branches := by
  have countRest := counts.count
  rw [count_cons_self] at countRest
  have noBetween : wordToken (lastWord value ++ "WHEN".toList) ≠ .keyword .BETWEEN := by
    intro same
    have spelled := upper_of_wordToken.2 same
    rw [upper, map_append, show "BETWEEN".toList = "BET".toList ++ "WEEN".toList from rfl]
      at spelled
    exact absurd (append_inj' spelled rfl).2 (by decide)
  refine ⟨fun member => ?_, ?_⟩
  · obtain same | behind := mem_cons.1 member
    · exact noBetween same.symm
    · exact counts.noBetween (mem_cons_of_mem _ behind)
  · by_cases word : lastWord value = []
    · have noSwallow : ¬ swallows value = true := by simp [swallows, word]
      have isWhen : wordToken (lastWord value ++ "WHEN".toList) = .keyword .WHEN := by
        rw [word]
        decide
      rw [isWhen, count_cons_self, countP_cons_of_neg noSwallow]
      exact countRest
    · have swallowed : swallows value = true := bne_iff_ne.2 word
      have noWhen : wordToken (lastWord value ++ "WHEN".toList) ≠ .keyword .WHEN := by
        intro same
        have length := congrArg List.length (upper_of_wordToken.1 same)
        rw [upper] at length
        exact word (eq_nil_of_length_eq_zero (by simpa using length))
      rw [count_cons_of_ne noWhen, countP_cons_of_pos swallowed]
      omega

theorem Counts.tokens (counts : Counts (bodyTokens statement) values branches)
    (printable : ∀ leaf ∈ leaves statement, LeafPrintable leaf) :
    Counts (bodyTokens statement ++ wordTokens (lastWord statement)) values branches :=
  counts.after (quiet_lastWord printable)

mutual

/-- The text of a statement has a WHEN for each branch, apart from those that are one word with the
value before them. -/
theorem counts_bodyTokens (statement : SqlStatement)
    (printable : ∀ leaf ∈ leaves statement, LeafPrintable leaf) :
    Counts (bodyTokens statement) (joints statement) (whens statement) := by
  cases statement with
  | value value =>
    have leaf := printable _ (mem_singleton_self _)
    cases value with
    | booleanPrimary | literal => exact counts_of_quiet rfl
    | dateTimeLiteral type format text =>
      exact counts_of_quiet (by cases type <;> cases format <;> rfl)
    | columnReference name => exact counts_of_quiet (quiet_name_of_printable leaf.1).1
  | coerce target type =>
    exact ((counts_bodyTokens target printable).tokens printable).after (quiet_type type).1
  | unary operation operand =>
    have inside := (counts_bodyTokens operand printable).tokens printable
    exact (inside.before (by cases operation <;> rfl)).after rfl
  | binary operation left right =>
    obtain ⟨printableLeft, printableRight⟩ := forall_mem_append.1 printable
    have countsLeft := (counts_bodyTokens left printableLeft).tokens printableLeft
    have countsRight := (counts_bodyTokens right printableRight).tokens printableRight
    have operator : quietTokens (binaryTokens operation) := by cases operation <;> rfl
    exact (((countsLeft.cons _ rfl).after operator).append countsRight).after rfl
  | booleanIs negated operand primary =>
    have inside := (counts_bodyTokens operand printable).tokens printable
    have operator : quietTokens (isTokens negated) := by cases negated <;> rfl
    exact (((inside.cons _ rfl).after operator).after (quiet_primary primary)).after rfl
  | booleanIn negated operand list =>
    obtain ⟨printableOperand, printableList⟩ := forall_mem_append.1 printable
    have inside := (counts_bodyTokens operand printableOperand).tokens printableOperand
    have operator : quietTokens (inTokens negated) := by cases negated <;> rfl
    have cells := (counts_cellTokens list printableList).cons (.sign .leftParen) rfl
    exact (((inside.cons _ rfl).after operator).append cells).after rfl
  | functionCall name parameters =>
    obtain ⟨printableName, printableList⟩ := forall_mem_cons.1 printable
    have callee := quiet_name_of_printable (show NamePrintable 2 name from printableName)
    have cells := (counts_cellTokens parameters printableList).cons (.sign .leftParen) rfl
    exact (cells.before (quiet_append callee)).after rfl
  | parmlessCall name =>
    have callee := quiet_parmlessName (printable _ (mem_singleton_self _))
    exact (counts_of_quiet (quiet_append callee)).after rfl
  | coalesce arguments | greatest arguments | least arguments =>
    have cells := counts_cellTokens arguments printable
    exact ((cells.cons _ rfl).cons _ rfl).after rfl
  | nullIf left right =>
    obtain ⟨printableLeft, printableRight⟩ := forall_mem_append.1 printable
    have countsLeft := (counts_bodyTokens left printableLeft).tokens printableLeft
    have countsRight := (counts_bodyTokens right printableRight).tokens printableRight
    exact (((countsLeft.cons _ rfl).cons _ rfl).append (countsRight.cons _ rfl)).after rfl
  | cas value branches optionalElse =>
    obtain ⟨printableValue, printableRest⟩ := forall_mem_append.1 printable
    obtain ⟨printableBranches, printableElse⟩ := forall_mem_append.1 printableRest
    have first := (counts_caseValueTokens value printableValue).cons (.keyword .CASE) rfl
    have all := first.append ((counts_branchTokens branches printableBranches).append
      (counts_elseTokens optionalElse printableElse))
    rwa [← append_assoc] at all

theorem counts_caseValueTokens (value : SqlPointer)
    (printable : ∀ leaf ∈ leavesOfPointer value, LeafPrintable leaf) :
    Counts (caseValueTokens value) (jointsOfPointer value) (whensOfPointer value) := by
  cases value with
  | null => exact counts_of_quiet rfl
  | pointsTo statement => exact (counts_bodyTokens statement printable).tokens printable

theorem counts_elseTokens (optionalElse : SqlPointer)
    (printable : ∀ leaf ∈ leavesOfPointer optionalElse, LeafPrintable leaf) :
    Counts (elseTokens optionalElse) (jointsOfPointer optionalElse)
      (whensOfPointer optionalElse) := by
  cases optionalElse with
  | null => exact counts_of_quiet rfl
  | pointsTo statement =>
    exact ((counts_bodyTokens statement printable).tokens printable).cons _ rfl

theorem counts_cellTokens (list : SqlColumnList)
    (printable : ∀ leaf ∈ leavesOfCells list, LeafPrintable leaf) :
    Counts (cellTokens list) (jointsOfCells list) (whensOfCells list) := by
  cases list with
  | last value => exact (counts_bodyTokens value printable).tokens printable
  | cons value next =>
    obtain ⟨printableValue, printableNext⟩ := forall_mem_append.1 printable
    exact ((counts_bodyTokens value printableValue).tokens printableValue).append
      ((counts_cellTokens next printableNext).cons _ rfl)

theorem counts_branchTokens (branches : SqlCaseBranch)
    (printable : ∀ leaf ∈ leavesOfBranches branches, LeafPrintable leaf) :
    Counts (.keyword .WHEN :: branchTokens branches) (jointsOfBranches branches)
      (whensOfBranches branches) := by
  cases branches with
  | last condition value =>
    obtain ⟨printableCondition, printableValue⟩ := forall_mem_append.1 printable
    have countsCondition := (counts_bodyTokens condition printableCondition).tokens
      printableCondition
    have countsValue := (counts_bodyTokens value printableValue).tokens printableValue
    exact (countsCondition.append (countsValue.cons _ rfl)).when
  | cons condition value next =>
    obtain ⟨printableCondition, printableRest⟩ := forall_mem_append.1 printable
    obtain ⟨printableValue, printableNext⟩ := forall_mem_append.1 printableRest
    have countsCondition := (counts_bodyTokens condition printableCondition).tokens
      printableCondition
    have behind := (counts_branchTokens next printableNext).joint value
    have rest := ((counts_bodyTokens value printableValue).append behind).perm perm_middle
    exact (countsCondition.append (rest.cons _ rfl)).when

end

/-! ## Leaves -/

theorem asParsed_of_isLeaf (isLeaf : IsLeaf leaf) : leaf.asParsed = leaf := by
  cases leaf with
  | value | parmlessCall => rfl
  | functionCall name parameters =>
    obtain rfl : parameters = .last (.value (.literal .integerLiteral ['0'])) := isLeaf
    rfl
  | _ => exact isLeaf.elim

/-- A leaf that comes back is written as it is read: its text has no letters for a quote inside. -/
theorem leafPrintable_of_reparse (isLeaf : IsLeaf leaf)
    (read : reparse validateDateTimeValue (emitCheckConstraint leaf) = some leaf) :
    LeafPrintable leaf := by
  have pays := (derives_of_reparse read).pays fun token member => isLexed_of_mem_lex member
  have short := width_lex_le (emitCheckConstraint leaf)
  cases leaf with
  | value value =>
    cases value with
    | booleanPrimary primary => trivial
    | literal type text =>
      cases type with
      | stringLiteral =>
        change text.length + text.count '\'' + 2 ≤ _ at pays
        change _ ≤ ('\'' :: text ++ ['\'']).length at short
        rw [cons_append, length_cons, length_append] at short
        exact count_eq_zero.1 (by simp only [length_singleton] at short; omega)
      | numericLiteral | integerLiteral => trivial
    | dateTimeLiteral type format text =>
      intro inside
      have cost := pays inside
      have whole : emitCheckConstraint (.value (.dateTimeLiteral type format text)) =
          type.words.1 ++ (formatText format ++ (type.words.2 ++ '\'' :: (text ++ ['\'']))) := by
        change type.words.1 ++ formatText format ++ type.words.2 ++ '\'' :: text ++ ['\''] = _
        simp
      rw [whole, lex_dateTimeType, width_append] at cost
      have behind := width_lex_le ('\'' :: (text ++ ['\'']))
      simp only [length_cons, length_append, length_nil] at behind
      omega
    | columnReference name =>
      refine pays.resolve_right fun cost => ?_
      change _ ≤ (nameText name).length at short
      omega
  | functionCall name parameters =>
    obtain rfl : parameters = .last (.value (.literal .integerLiteral ['0'])) := isLeaf
    refine pays.resolve_right fun cost => ?_
    change _ ≤ (nameText name ++ '(' :: ['0'] ++ [')']).length at short
    simp only [length_append, length_cons, length_nil] at short cost
    omega
  | parmlessCall name =>
    refine pays.resolve_right fun cost => ?_
    change _ ≤ (nameText name ++ ['(', ')']).length at short
    simp only [length_append, length_cons, length_nil] at short
    omega
  | _ => exact isLeaf.elim

/-! ## The text definition -/

variable (validateDateTimeValue)

/-- A statement of a CHECK constraint: the parser returned it for the text of the user. -/
def Accepted (statement : SqlStatement) : Prop :=
  ∃ text, reparse validateDateTimeValue text = some statement.asParsed

/-- An automatic upgrade reads the statement from its text definition. -/
def ReadsBack (statement : SqlStatement) : Prop :=
  reparse validateDateTimeValue (emitCheckConstraint statement) = some statement.asParsed

variable {validateDateTimeValue}

/-- A leaf that is written as it is read comes back. -/
theorem readsBack_of_isLeaf (isLeaf : IsLeaf leaf)
    (printable : LeafRead validateDateTimeValue leaf ∧ LeafPrintable leaf) :
    ReadsBack validateDateTimeValue leaf := by
  cases leaf with
  | value | parmlessCall =>
    exact reparse_emitCheckConstraint (forall_mem_singleton.2 printable)
      (forall_mem_nil _)
  | functionCall name parameters =>
    obtain rfl : parameters = .last (.value (.literal .integerLiteral ['0'])) := isLeaf
    exact reparse_emitCheckConstraint
      (forall_mem_cons.2 ⟨printable, forall_mem_singleton.2 ⟨rfl, trivial⟩⟩)
      (forall_mem_nil _)
  | _ => exact isLeaf.elim

theorem Accepted.leavesRead (accepted : Accepted validateDateTimeValue statement) :
    ∀ leaf ∈ leaves statement, LeafRead validateDateTimeValue leaf := by
  obtain ⟨text, read⟩ := accepted
  have derives := derives_of_reparse read
  rw [← (leaves_asParsed _).2.1]
  exact derives.covers.leaves fun token member => isLexed_of_mem_lex member

/-- A statement that comes back has lost no WHEN. -/
theorem lastWord_of_readsBack (printable : LeavesPrintable validateDateTimeValue (leaves statement))
    (back : ReadsBack validateDateTimeValue statement) :
    ∀ value ∈ joints statement, lastWord value = [] := by
  have written : ∀ leaf ∈ leaves statement, LeafPrintable leaf :=
    fun leaf member => (printable leaf member).2
  have counts := (counts_bodyTokens statement written).tokens written
  have covers := (derives_of_reparse back).covers
  rw [lex_emitCheckConstraint printable, (leaves_asParsed _).2.2] at covers
  have enough : whens statement ≤ (tokens statement).count (.keyword .WHEN) :=
    covers.branches counts.noBetween
  have count : (tokens statement).count (.keyword .WHEN) + (joints statement).countP swallows =
      whens statement := counts.count
  have none : (joints statement).countP swallows = 0 := by omega
  intro value member
  simpa [swallows] using countP_eq_zero.1 none value member

/-- The text definition of an accepted constraint, and of each literal and name in it, comes back
exactly when no literal has a single quote inside, no quoted name a double quote, the other names
are words and no WHEN is written together with the word before it. -/
theorem readsBack_iff_printable {statement : SqlStatement}
    (accepted : Accepted validateDateTimeValue statement) :
    (ReadsBack validateDateTimeValue statement ∧
        ∀ leaf ∈ leaves statement, ReadsBack validateDateTimeValue leaf) ↔
      Printable statement := by
  have leavesRead := accepted.leavesRead
  constructor
  · rintro ⟨back, leavesBack⟩
    have written : ∀ leaf ∈ leaves statement, LeafPrintable leaf := by
      intro leaf member
      have isLeaf := (leaves_asParsed statement).1 leaf member
      have leafBack := leavesBack leaf member
      rw [ReadsBack, asParsed_of_isLeaf isLeaf] at leafBack
      exact leafPrintable_of_reparse isLeaf leafBack
    exact ⟨written, lastWord_of_readsBack
      (fun leaf member => ⟨leavesRead leaf member, written leaf member⟩) back⟩
  · rintro ⟨written, apart⟩
    have printable : LeavesPrintable validateDateTimeValue (leaves statement) :=
      fun leaf member => ⟨leavesRead leaf member, written leaf member⟩
    refine ⟨reparse_emitCheckConstraint printable apart, fun leaf member => ?_⟩
    exact readsBack_of_isLeaf ((leaves_asParsed statement).1 leaf member) (printable leaf member)

/-- `CHECK (name <> 'O''Neil')`: the text definition has a string that ends at the quote. -/
def quotedName : SqlStatement :=
  .binary .booleanNotEquals (.value (.columnReference ⟨false, "name".toList⟩))
    (.value (.literal .stringLiteral "O'Neil".toList))

/-- `CHECK (CASE WHEN a THEN b WHEN c THEN d END)`: the text definition has the word `bWHEN`. -/
def twoBranches : SqlStatement :=
  .cas .null
    (.cons (.value (.columnReference ⟨false, ['a']⟩)) (.value (.columnReference ⟨false, ['b']⟩))
      (.last (.value (.columnReference ⟨false, ['c']⟩)) (.value (.columnReference ⟨false, ['d']⟩))))
    .null

theorem quotedName_twoBranches_not_readsBack :
    (Accepted (fun _ _ _ => true) quotedName ∧ ¬ ReadsBack (fun _ _ _ => true) quotedName) ∧
      Accepted (fun _ _ _ => true) twoBranches ∧ ¬ ReadsBack (fun _ _ _ => true) twoBranches := by
  refine ⟨⟨⟨"name <> 'O''Neil'".toList, ?_⟩, ?_⟩,
    ⟨"CASE WHEN a THEN b WHEN c THEN d END".toList, ?_⟩, ?_⟩
  · decide
  · rw [ReadsBack]
    decide
  · decide
  · rw [ReadsBack]
    decide

/-- `CHECK (CASE WHEN "a b" > 0 THEN 'x y' WHEN c THEN d END)` comes back. -/
def quotedBranches : SqlStatement :=
  .cas .null
    (.cons (.binary .booleanGreaterThan (.value (.columnReference ⟨true, "a b".toList⟩))
        (.value (.literal .integerLiteral ['0'])))
      (.value (.literal .stringLiteral "x y".toList))
      (.last (.value (.columnReference ⟨false, ['c']⟩)) (.value (.columnReference ⟨false, ['d']⟩))))
    .null

theorem readsBack_quotedBranches :
    Accepted (fun _ _ _ => true) quotedBranches ∧
      ReadsBack (fun _ _ _ => true) quotedBranches := by
  have accepted : Accepted (fun _ _ _ => true) quotedBranches :=
    ⟨"CASE WHEN \"a b\" > 0 THEN 'x y' WHEN c THEN d END".toList, by decide⟩
  have printable : Printable quotedBranches := ⟨by decide, by decide⟩
  exact ⟨accepted, ((readsBack_iff_printable accepted).2 printable).1⟩

end Octo.Constraint
