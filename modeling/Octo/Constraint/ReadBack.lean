import Octo.Constraint.LexEmitted
import Octo.Constraint.Reparse

/-!
# Reading a written statement back

The parser reads the tokens of every statement whose leaves are written as they are read and whose
branches are apart. The induction follows the statement; each level of nesting takes one more call
of a whole expression, and a statement has at least as many tokens as levels.
-/
namespace Octo.Constraint

open Octo.Dml (DateTimeFormat)
open Octo.Foundation List Nat Option SqlStatement

variable {validate : DateTimeType → DateTimeFormat → List Char → Bool}
variable {fuel : Nat} {rest : List Token} {statement left right : SqlStatement}
variable {list : SqlColumnList} (ends : ∀ token ∈ rest.head?, isEnd token)

/-! ## What follows a statement -/

include ends in
theorem follows_of_isEnd : Follows rest := by
  cases rest with
  | nil => exact ⟨by simp, by simp, by simp, by simp⟩
  | cons token rest =>
    constructor <;> (rintro ⟨⟩; simp [isEnd] at ends)

include ends in
theorem noColon_of_isEnd :
    rest.head? ≠ some (.sign .colon) := by
  intro colon
  have := ends _ colon
  simp [isEnd] at this

variable {token : Token} {value optionalElse : SqlPointer} {branches : SqlCaseBranch}

/-- A token that continues no primary. -/
theorem follows_cons (noPeriod : token ≠ .sign .period)
    (noParen : token ≠ .sign .leftParen) (noZone : token ≠ .keyword .WITH_TIME_ZONE)
    (noOtherZone : token ≠ .keyword .WITHOUT_TIME_ZONE) : Follows (token :: rest) :=
  ⟨by simpa using noPeriod, by simpa using noParen, by simpa using noZone,
    by simpa using noOtherZone⟩

/-! ## Casts -/

/-- The casts that stand one behind the other. -/
def casts : SqlStatement → Nat
  | .coerce target _ => casts target + 1
  | _ => 0

/-- The parser reads the tokens of a statement: a primary, and then the casts behind it. -/
def Reads (validateDateTimeValue : DateTimeType → DateTimeFormat → List Char → Bool) (fuel : Nat)
    (statement : SqlStatement) : Prop :=
  ∀ rest, Follows rest → ∃ core behind,
    valueExpressionPrimary validateDateTimeValue (valueExpression validateDateTimeValue fuel)
        (tokens statement ++ rest) = some (core, behind) ∧
      casts statement + rest.length ≤ behind.length ∧
      ∀ more, castRest (more + casts statement) core behind = castRest more statement.asParsed rest

theorem castRest_of_noColon (noColon : rest.head? ≠ some (.sign .colon)) (fuel : Nat)
    (statement : SqlStatement) : castRest fuel statement rest = some (statement, rest) := by
  unfold castRest
  split
  · exact absurd rfl noColon
  · rfl

namespace Reads

/-- A statement that is read as a primary. -/
theorem of_primary (noCast : casts statement = 0) (read : ∀ rest, Follows rest →
      valueExpressionPrimary validate (valueExpression validate fuel)
        (tokens statement ++ rest) = some (statement.asParsed, rest)) :
    Reads validate fuel statement := by
  intro rest follows
  refine ⟨_, _, read rest follows, by omega, fun more => ?_⟩
  rw [noCast, add_zero]

section

variable (reads : Reads validate fuel statement)
include reads

theorem numericPrimary (follows : Follows rest) (noColon : rest.head? ≠ some (.sign .colon)) :
    numericPrimary validate (valueExpression validate fuel)
      (tokens statement ++ rest) = some (statement.asParsed, rest) := by
  obtain ⟨core, behind, read, long, unwound⟩ := reads rest follows
  have steps : behind.length = behind.length - casts statement + casts statement := by omega
  rw [Constraint.numericPrimary, read, bind_some]
  rw [steps, unwound, castRest_of_noColon noColon]

include ends in
/-- A statement as a whole expression. -/
theorem expression :
    valueExpression validate (fuel + 1) (tokens statement ++ rest) =
      some (statement.asParsed, rest) :=
  searchCondition_of_numericPrimary ends
    (reads.numericPrimary (follows_of_isEnd ends) (noColon_of_isEnd ends))

theorem before (final : Token) (ends : isEnd final) (rest : List Token) :
    valueExpression validate (fuel + 1) (tokens statement ++ final :: rest) =
      some (statement.asParsed, final :: rest) :=
  reads.expression (by rintro _ ⟨⟩; exact ends)

/-- A statement and the token that ends it. -/
theorem ended (final : Token) (ends : isEnd final) (rest : List Token) :
    endedExpression (valueExpression validate (fuel + 1)) final
      (tokens statement ++ final :: rest) = some (statement.asParsed, rest) :=
  endedExpression_eq (reads.before final ends rest)

end

theorem coerce (target : Reads validate fuel statement) (type : CoercedType) :
    Reads validate fuel (.coerce statement type) := by
  intro rest follows
  have colons : Follows (.sign .colon :: .sign .colon :: (typeTokens type ++ rest)) :=
    follows_cons (by decide) (by decide) (by decide) (by decide)
  obtain ⟨core, behind, read, long, unwound⟩ := target _ colons
  have text : tokens (.coerce statement type) ++ rest =
      tokens statement ++ .sign .colon :: .sign .colon :: (typeTokens type ++ rest) := by
    simp [tokens, bodyTokens, typeTokens, lastWord]
  refine ⟨core, behind, by rw [text]; exact read, ?_, fun more => ?_⟩
  · simp only [length_cons, length_append] at long
    simp only [casts]
    omega
  · have one : more + casts (.coerce statement type) = more + 1 + casts statement := by
      simp only [casts]
      omega
    rw [one, unwound]
    simp [castRest, castSpecification_eq _ type follows, asParsed]

/-- What stands in parentheses is an expression. -/
theorem of_parentheses (inside : List Token) (noCast : casts statement = 0)
    (text : tokens statement = .sign .leftParen :: (inside ++ [.sign .rightParen]))
    (read : ∀ rest, valueExpression validate fuel (inside ++ .sign .rightParen :: rest) =
      some (statement.asParsed, .sign .rightParen :: rest)) :
    Reads validate fuel statement := by
  refine of_primary noCast fun rest _ => ?_
  rw [text]
  simp only [cons_append, append_assoc]
  exact closedExpression_eq (read rest)

theorem isEnd_rightParen (rest : List Token) :
    ∀ token ∈ (Token.sign .rightParen :: rest).head?, isEnd token := by
  rintro _ ⟨⟩
  rfl

/-- An operand before the parenthesis that closes a statement. -/
theorem operand (reads : Reads validate fuel statement) (rest : List Token) :
    Constraint.numericPrimary validate (valueExpression validate fuel)
        (tokens statement ++ .sign .rightParen :: rest) =
      some (statement.asParsed, .sign .rightParen :: rest) :=
  reads.numericPrimary (follows_of_isEnd (isEnd_rightParen rest))
    (noColon_of_isEnd (isEnd_rightParen rest))

theorem unary (read : Reads validate fuel statement) (operation : UnaryOperation) :
    Reads validate (fuel + 1) (.unary operation statement) := by
  refine of_parentheses (unaryTokens operation ++ tokens statement) rfl ?_ fun rest => ?_
  · simp [tokens, bodyTokens, wordTokens, lastWord]
  · rw [append_assoc]
    exact searchCondition_unary (isEnd_rightParen rest) operation (read.operand rest)

theorem follows_binaryTokens (operation : BinaryOperation) (rest : List Token) :
    Follows (binaryTokens operation ++ rest) ∧
      (binaryTokens operation ++ rest).head? ≠ some (.sign .colon) := by
  cases operation <;>
    exact ⟨follows_cons (by decide) (by decide) (by decide) (by decide), by simp [binaryTokens]⟩

theorem binary (readLeft : Reads validate fuel left)
    (readRight : Reads validate fuel right) (operation : BinaryOperation) :
    Reads validate (fuel + 1) (.binary operation left right) := by
  refine of_parentheses (tokens left ++ (binaryTokens operation ++ tokens right)) rfl ?_
    fun rest => ?_
  · simp [tokens, bodyTokens, wordTokens, lastWord]
  · obtain ⟨follows, noColon⟩ :=
      follows_binaryTokens operation (tokens right ++ .sign .rightParen :: rest)
    simp only [append_assoc]
    exact searchCondition_binary (isEnd_rightParen rest) operation
      (readLeft.numericPrimary follows noColon) (readRight.operand rest)

theorem booleanIs (read : Reads validate fuel statement) (negated : Bool)
    (primary : BooleanPrimary) :
    Reads validate (fuel + 1) (.booleanIs negated statement primary) := by
  refine of_parentheses (tokens statement ++ (isTokens negated ++ wordTokens primary.text)) rfl ?_
    fun rest => ?_
  · simp [tokens, bodyTokens, lastWord, show wordTokens [] = [] from rfl]
  · have follows : Follows
        (isTokens negated ++ (wordTokens primary.text ++ .sign .rightParen :: rest)) := by
      cases negated <;> exact follows_cons (by decide) (by decide) (by decide) (by decide)
    simp only [append_assoc]
    exact searchCondition_booleanIs (isEnd_rightParen rest) negated primary
      (read.numericPrimary follows (by cases negated <;> simp [isTokens]))

end Reads

/-- The parser reads the cells of a list before a parenthesis. -/
def ReadsCells (validateDateTimeValue : DateTimeType → DateTimeFormat → List Char → Bool)
    (fuel : Nat) (list : SqlColumnList) : Prop :=
  ∀ rest, closedList (valueExpression validateDateTimeValue fuel)
    (cellTokens list ++ .sign .rightParen :: rest) = some (list.asParsed, rest)

namespace Reads

theorem booleanIn (read : Reads validate fuel statement) (cells : ReadsCells validate fuel list)
    (negated : Bool) : Reads validate (fuel + 1) (.booleanIn negated statement list) := by
  refine of_parentheses (tokens statement ++ (inTokens negated ++
    .sign .leftParen :: (cellTokens list ++ [.sign .rightParen]))) rfl ?_ fun rest => ?_
  · simp [tokens, bodyTokens, lastWord, show wordTokens [] = [] from rfl]
  · have follows : Follows (inTokens negated ++ .sign .leftParen :: (cellTokens list ++
        .sign .rightParen :: .sign .rightParen :: rest)) := by
      cases negated <;> exact follows_cons (by decide) (by decide) (by decide) (by decide)
    simp only [append_assoc, cons_append]
    exact searchCondition_booleanIn (isEnd_rightParen rest) negated
      (read.numericPrimary follows (by cases negated <;> simp [inTokens]))
      (cells (.sign .rightParen :: rest))

/-- No expression begins with the token that ends another. -/
theorem valueExpression_eq_none (ends : isEnd token) (fuel : Nat) (rest : List Token) :
    valueExpression validate fuel (token :: rest) = none := by
  cases fuel with
  | zero => rfl
  | succ fuel =>
    unfold isEnd at ends
    split at ends
    case h_7 => simp at ends
    all_goals simp [valueExpression, searchCondition, booleanTerm, booleanFactor, booleanTest,
      predicate, numericValueExpression, term, Parser.chain, factor, Constraint.numericPrimary,
      valueExpressionPrimary, booleanPrimary, columnName, dateTimeLiteral, datetimeType,
      datetimeType.dtType]

theorem functionCall {name : Name} (printable : NamePrintable 2 name) (nonempty : name.text ≠ [])
    (short : name.text.length ≤ octoMaxIdent) (cells : ReadsCells validate fuel list) :
    Reads validate fuel (.functionCall name list) := by
  refine of_primary rfl fun rest _ => ?_
  have text : tokens (.functionCall name list) ++ rest =
      nameTokens name ++ .sign .leftParen :: (cellTokens list ++ .sign .rightParen :: rest) := by
    simp [tokens, bodyTokens, nameTokens, lastWord, wordTokens]
  obtain ⟨head, others, same, isName, read⟩ := @qualifiedName_eq
    (.sign .leftParen :: (cellTokens list ++ .sign .rightParen :: rest)) 1 name printable nonempty
    short (by simp)
  rw [text, same, cons_append, valueExpressionPrimary_of_columnName isName, ← cons_append, ← same]
  have listRead := cells rest
  unfold namedPrimary
  rw [read]
  split
  case h_1 call behind found =>
    -- A list that begins with the parenthesis behind it would have no first cell.
    have noCell := @valueExpression_eq_none validate (.sign .rightParen) rfl fuel behind
    simp only [some.injEq, Prod.mk.injEq, cons.injEq, true_and] at found
    rw [found.2] at listRead
    simp [closedList, inValueList, noCell] at listRead
  case h_2 found =>
    obtain ⟨rfl, rfl⟩ := found
    rw [listRead]
    rfl
  case h_3 noCall => exact absurd rfl (noCall _ _)

theorem parmlessCall {name : Name} (printable : LeafPrintable (.parmlessCall name))
    (nonempty : name.text ≠ []) (short : name.text.length ≤ octoMaxIdent) :
    Reads validate fuel (.parmlessCall name) := by
  refine of_primary rfl fun rest _ => ?_
  have written : tokens (.parmlessCall name) ++ rest =
      nameTokens name ++ .sign .leftParen :: .sign .rightParen :: rest := by
    simp [tokens, bodyTokens, nameTokens, lastWord, wordTokens]
  rw [written]
  obtain path | ⟨unquoted, isWord, parenless⟩ := printable
  · obtain ⟨head, others, same, isName, read⟩ := @qualifiedName_eq
      (.sign .leftParen :: .sign .rightParen :: rest) 1 name path nonempty short (by simp)
    rw [same, cons_append, valueExpressionPrimary_of_columnName isName, ← cons_append,
      ← same, namedPrimary, read]
    rfl
  · obtain ⟨quoted, text⟩ := name
    obtain rfl : quoted = false := unquoted
    have tokens : nameTokens ⟨false, text⟩ = [.parenlessFunction text] := by
      rw [← parenless]
      simp [nameTokens, nameBody, nameLast, nameParts_of_isWord isWord, pathBody, wordTokens,
        show text ≠ [] from nonempty]
    rw [tokens]
    rfl

/-- A keyword that is called. -/
theorem of_keywordCall (keyword : Keyword) (build : SqlColumnList → SqlStatement)
    (noCast : casts statement = 0) (text : tokens statement =
      .keyword keyword :: .sign .leftParen :: cellTokens list ++ [.sign .rightParen])
    (rule : ∀ rest, valueExpressionPrimary validate
        (valueExpression validate fuel)
        (.keyword keyword :: .sign .leftParen :: rest) =
      (closedList (valueExpression validate fuel) rest).map fun read =>
        (build read.1, read.2)) (built : build list.asParsed = statement.asParsed)
    (cells : ReadsCells validate fuel list) : Reads validate fuel statement := by
  refine of_primary noCast fun rest _ => ?_
  rw [text]
  simp only [cons_append, append_assoc, nil_append]
  rw [rule, cells rest, ← built]
  rfl

section

variable {arguments : SqlColumnList} (cells : ReadsCells validate fuel arguments)
include cells

theorem coalesce : Reads validate fuel (.coalesce arguments) :=
  of_keywordCall .COALESCE .coalesce rfl (by simp [tokens, bodyTokens, lastWord, wordTokens])
    (fun _ => rfl) rfl cells

theorem greatest : Reads validate fuel (.greatest arguments) :=
  of_keywordCall .GREATEST .greatest rfl (by simp [tokens, bodyTokens, lastWord, wordTokens])
    (fun _ => rfl) rfl cells

theorem least : Reads validate fuel (.least arguments) :=
  of_keywordCall .LEAST .least rfl (by simp [tokens, bodyTokens, lastWord, wordTokens])
    (fun _ => rfl) rfl cells

end

theorem nullIf (readLeft : Reads validate fuel left) (readRight : Reads validate fuel right) :
    Reads validate (fuel + 1) (.nullIf left right) := by
  refine of_primary rfl fun rest _ => ?_
  have text : tokens (.nullIf left right) ++ rest = .keyword .NULLIF :: .sign .leftParen ::
      (tokens left ++ .sign .comma :: (tokens right ++ .sign .rightParen :: rest)) := by
    simp [tokens, bodyTokens, lastWord, wordTokens]
  have first := readLeft.ended (.sign .comma) rfl (tokens right ++ .sign .rightParen :: rest)
  have second := closedExpression_eq (readRight.before _ rfl rest)
  rw [text]
  simp [valueExpressionPrimary, first, second, asParsed]

end Reads

/-! ## CASE -/

/-- The parser reads the branches of a CASE before its ELSE or its END. -/
def ReadsBranches (validateDateTimeValue : DateTimeType → DateTimeFormat → List Char → Bool)
    (fuel : Nat) (branches : SqlCaseBranch) : Prop :=
  ∀ token rest, token = .keyword .ELSE ∨ token = .keyword .END → ∀ steps,
    (branchTokens branches).length ≤ steps →
    simpleWhenClause (valueExpression validateDateTimeValue fuel) steps
      (branchTokens branches ++ token :: rest) = some (branches.asParsed, token :: rest)

/-- The parser reads the statement, when there is one. -/
def ReadsPointer (validateDateTimeValue : DateTimeType → DateTimeFormat → List Char → Bool)
    (fuel : Nat) : SqlPointer → Prop
  | .null => True
  | .pointsTo statement => Reads validateDateTimeValue fuel statement

/-- The ELSE of a CASE and its END. -/
theorem caseBranches_eq (readBranches : ReadsBranches validate (fuel + 1) branches)
    (readElse : ReadsPointer validate fuel optionalElse) :
    caseBranches (valueExpression validate (fuel + 1)) value
        (branchTokens branches ++ (elseTokens optionalElse ++ .keyword .END :: rest)) =
      some (.cas value branches.asParsed optionalElse.asParsed, rest) := by
  cases optionalElse with
  | null =>
    have read := readBranches (.keyword .END) rest (.inr rfl) _
      (show _ ≤ (branchTokens branches ++ .keyword .END :: rest).length by simp)
    simp only [elseTokens, nil_append]
    rw [caseBranches, read]
    rfl
  | pointsTo statement =>
    have tokensElse : elseTokens (.pointsTo statement) ++ .keyword .END :: rest =
        .keyword .ELSE :: (tokens statement ++ .keyword .END :: rest) := by
      simp [elseTokens, tokens]
    have read := readBranches (.keyword .ELSE) (tokens statement ++ .keyword .END :: rest)
      (.inl rfl) _ (show _ ≤ (branchTokens branches ++ .keyword .ELSE ::
        (tokens statement ++ .keyword .END :: rest)).length by simp)
    rw [tokensElse, caseBranches, read]
    simp [Reads.ended readElse (.keyword .END) rfl rest, SqlPointer.asParsed]

/-- The value of a CASE before its first WHEN. -/
theorem valueExpressionPrimary_case {input : List Token}
    (ended : endedExpression (valueExpression validate fuel) (.keyword .WHEN) input =
      some (statement, rest)) :
    valueExpressionPrimary validate (valueExpression validate fuel)
        (.keyword .CASE :: input) =
      caseBranches (valueExpression validate fuel) (.pointsTo statement) rest := by
  have asValue : (endedExpression (valueExpression validate fuel) (.keyword .WHEN)
      input).bind (fun value => caseBranches (valueExpression validate fuel)
        (.pointsTo value.1) value.2) =
      caseBranches (valueExpression validate fuel) (.pointsTo statement) rest := by
    rw [ended, bind_some]
  rw [← asValue]
  cases input with
  | nil => rfl
  | cons token input =>
    have noWhen : token ≠ .keyword .WHEN := by
      rintro rfl
      have noValue := @Reads.valueExpression_eq_none validate (.keyword .WHEN) rfl fuel
        input
      simp [endedExpression, noValue] at ended
    unfold valueExpressionPrimary
    split <;> simp_all

namespace Reads

theorem cas (readValue : ReadsPointer validate fuel value)
    (readBranches : ReadsBranches validate (fuel + 1) branches)
    (readElse : ReadsPointer validate fuel optionalElse) :
    Reads validate (fuel + 1) (.cas value branches optionalElse) := by
  refine of_primary rfl fun rest _ => ?_
  have written : tokens (.cas value branches optionalElse) ++ rest =
      .keyword .CASE :: (caseValueTokens value ++ .keyword .WHEN :: (branchTokens branches ++
        (elseTokens optionalElse ++ .keyword .END :: rest))) := by
    have last : wordTokens (lastWord (.cas value branches optionalElse)) = [.keyword .END] := by
      change wordTokens "END".toList = _
      decide
    simp [tokens, bodyTokens, last]
  have branchesRead := fun value => @caseBranches_eq _ _ rest value _ _ readBranches readElse
  rw [written]
  cases value with
  | null => exact branchesRead .null
  | pointsTo statement =>
    change valueExpressionPrimary _ _ (.keyword .CASE :: (tokens statement ++ _)) = _
    rw [valueExpressionPrimary_case (ended readValue _ rfl _), branchesRead]
    rfl

end Reads

/-- A statement has tokens. -/
theorem Reads.tokens_ne_nil (read : valueExpression validate fuel
    (tokens statement ++ .sign .rightParen :: rest) = some (left, .sign .rightParen :: rest)) :
    tokens statement ≠ [] := by
  intro empty
  rw [empty, nil_append, @Reads.valueExpression_eq_none validate (.sign .rightParen) rfl] at read
  simp at read

/-! ## All statements -/

theorem reads_value {value : SqlValue} (read : LeafRead validate (.value value))
    (printable : LeafPrintable (.value value)) : Reads validate fuel (.value value) := by
  refine Reads.of_primary rfl fun rest follows => ?_
  cases value with
  | booleanPrimary primary => rcases primary with _ | _ | _ | _ <;> rfl
  | literal type text => cases type <;> rfl
  | dateTimeLiteral type format text =>
    have written : tokens (.value (.dateTimeLiteral type format text)) ++ rest =
        dateTimeTokens type format ++ .literal .stringLiteral text :: rest := by
      simp [tokens, bodyTokens, valueBody, lastWord, wordTokens]
    rw [written]
    exact valueExpressionPrimary_dateTimeLiteral read.2.1 read.2.2
  | columnReference name =>
    exact valueExpressionPrimary_columnReference printable read.1 read.2 follows

/-- A list whose cells are apart by commas. -/
theorem readsCells_of_inValueList (read : ∀ rest steps, (cellTokens list).length ≤ steps →
      inValueList (valueExpression validate fuel) steps
        (cellTokens list ++ .sign .rightParen :: rest) =
          some (list.asParsed, .sign .rightParen :: rest)) : ReadsCells validate fuel list := by
  intro rest
  rw [closedList, read rest _ (by simp)]
  rfl

/-- The ELSE is a token more than its value. -/
theorem length_elseTokens (optionalElse : SqlPointer) :
    (caseValueTokens optionalElse).length ≤ (elseTokens optionalElse).length := by
  cases optionalElse with
  | null => exact le_refl _
  | pointsTo statement => exact le_succ _

mutual

/-- The parser reads the tokens of every statement whose leaves are written as they are read and
whose branches are apart. -/
theorem reads (statement : SqlStatement) (fuel : Nat) (short : (tokens statement).length ≤ fuel)
    (printable : LeavesPrintable validate (leaves statement))
    (apart : ∀ value ∈ joints statement, lastWord value = []) :
    Reads validate fuel statement := by
  cases statement with
  | value value =>
    obtain ⟨read, written⟩ := printable _ mem_cons_self
    exact reads_value read written
  | coerce target type =>
    have shorter : (tokens target).length ≤ fuel := by
      simp only [tokens, bodyTokens, length_append, length_cons] at short ⊢
      omega
    exact (reads target fuel shorter printable apart).coerce type
  | unary operation operand | booleanIs negated operand primary =>
    simp only [tokens, bodyTokens, length_append, length_cons] at short
    obtain _ | fuel := fuel
    · omega
    have shorter : (tokens operand).length ≤ fuel := by
      simp only [tokens, length_append]
      omega
    have read := reads operand fuel shorter printable apart
    first | exact read.unary operation | exact read.booleanIs negated primary
  | binary operation left right | nullIf left right =>
    simp only [tokens, bodyTokens, length_append, length_cons] at short
    obtain _ | fuel := fuel
    · omega
    have shorter : (tokens left).length ≤ fuel ∧ (tokens right).length ≤ fuel := by
      simp only [tokens, length_append]
      omega
    obtain ⟨leftPrintable, rightPrintable⟩ := forall_mem_append.1 printable
    obtain ⟨leftApart, rightApart⟩ := forall_mem_append.1 apart
    have readLeft := reads left fuel shorter.1 leftPrintable leftApart
    have readRight := reads right fuel shorter.2 rightPrintable rightApart
    first | exact readLeft.binary readRight operation | exact readLeft.nullIf readRight
  | booleanIn negated operand list =>
    simp only [tokens, bodyTokens, length_append, length_cons] at short
    obtain _ | fuel := fuel
    · omega
    have shorter : (tokens operand).length ≤ fuel ∧ (cellTokens list).length < fuel := by
      simp only [tokens, length_append]
      omega
    obtain ⟨operandPrintable, listPrintable⟩ := forall_mem_append.1 printable
    obtain ⟨operandApart, listApart⟩ := forall_mem_append.1 apart
    exact (reads operand fuel shorter.1 operandPrintable operandApart).booleanIn
      (readsCells_of_inValueList (readsList list fuel shorter.2 listPrintable listApart)) negated
  | functionCall name parameters =>
    have shorter : (cellTokens parameters).length < fuel := by
      simp only [tokens, bodyTokens, length_append, length_cons] at short
      omega
    obtain ⟨⟨read, written⟩, parametersPrintable⟩ := forall_mem_cons.1 printable
    exact .functionCall written read.1 read.2
      (readsCells_of_inValueList (readsList parameters fuel shorter parametersPrintable apart))
  | parmlessCall name =>
    obtain ⟨read, written⟩ := printable _ mem_cons_self
    exact .parmlessCall written read.1 read.2
  | coalesce arguments | greatest arguments | least arguments =>
    have shorter : (cellTokens arguments).length < fuel := by
      simp only [tokens, bodyTokens, length_append, length_cons] at short
      omega
    have cells := readsCells_of_inValueList (readsList arguments fuel shorter printable apart)
    first | exact .coalesce cells | exact .greatest cells | exact .least cells
  | cas value branches optionalElse =>
    simp only [tokens, bodyTokens, length_append, length_cons] at short
    obtain _ | fuel := fuel
    · omega
    obtain ⟨valuePrintable, others⟩ := forall_mem_append.1 printable
    obtain ⟨branchesPrintable, elsePrintable⟩ := forall_mem_append.1 others
    obtain ⟨valueApart, othersApart⟩ := forall_mem_append.1 apart
    obtain ⟨branchesApart, elseApart⟩ := forall_mem_append.1 othersApart
    have elseLength := length_elseTokens optionalElse
    exact .cas (readsPointer value fuel (by omega) valuePrintable valueApart)
      (readsBranches branches (fuel + 1) (by omega) branchesPrintable branchesApart)
      (readsPointer optionalElse fuel (by omega) elsePrintable elseApart)

theorem readsPointer (pointer : SqlPointer) (fuel : Nat)
    (short : (caseValueTokens pointer).length ≤ fuel)
    (printable : LeavesPrintable validate (leavesOfPointer pointer))
    (apart : ∀ value ∈ jointsOfPointer pointer, lastWord value = []) :
    ReadsPointer validate fuel pointer := by
  cases pointer with
  | null => trivial
  | pointsTo statement => exact reads statement fuel short printable apart

theorem readsList (list : SqlColumnList) (fuel : Nat) (short : (cellTokens list).length < fuel)
    (printable : LeavesPrintable validate (leavesOfCells list))
    (apart : ∀ value ∈ jointsOfCells list, lastWord value = []) (rest : List Token) (steps : Nat)
    (enough : (cellTokens list).length ≤ steps) :
    inValueList (valueExpression validate fuel) steps
      (cellTokens list ++ .sign .rightParen :: rest) =
        some (list.asParsed, .sign .rightParen :: rest) := by
  obtain _ | fuel := fuel
  · omega
  cases list with
  | last value =>
    have shorter : (tokens value).length ≤ fuel := Nat.lt_succ_iff.1 short
    have read := (reads value fuel shorter printable apart).before (.sign .rightParen) rfl rest
    obtain ⟨steps, rfl⟩ : ∃ before, steps = before + 1 := by
      refine ⟨steps - 1, ?_⟩
      have nonempty := Reads.tokens_ne_nil read
      have : 0 < (tokens value).length := length_pos_iff.2 nonempty
      have : (tokens value).length ≤ steps := enough
      omega
    exact inValueList_last read (by simp)
  | cons value next =>
    have written : cellTokens (.cons value next) =
        tokens value ++ .sign .comma :: cellTokens next :=
      rfl
    rw [written, length_append, length_cons] at short enough
    obtain _ | steps := steps
    · omega
    obtain ⟨valuePrintable, nextPrintable⟩ := forall_mem_append.1 printable
    obtain ⟨valueApart, nextApart⟩ := forall_mem_append.1 apart
    have read := (reads value fuel (by omega) valuePrintable valueApart).before (.sign .comma) rfl
    have others :=
      readsList next (fuel + 1) (by omega) nextPrintable nextApart rest steps (by omega)
    rw [written, append_assoc, cons_append]
    exact inValueList_cons (read _) others

theorem readsBranches (branches : SqlCaseBranch) (fuel : Nat)
    (short : (branchTokens branches).length < fuel)
    (printable : LeavesPrintable validate (leavesOfBranches branches))
    (apart : ∀ value ∈ jointsOfBranches branches, lastWord value = []) :
    ReadsBranches validate fuel branches := by
  intro token rest final steps enough
  obtain _ | fuel := fuel
  · omega
  cases branches with
  | last condition value =>
    have written : branchTokens (.last condition value) =
        tokens condition ++ .keyword .THEN :: tokens value := rfl
    rw [written, length_append, length_cons] at short enough
    obtain _ | steps := steps
    · omega
    obtain ⟨conditionPrintable, valuePrintable⟩ := forall_mem_append.1 printable
    obtain ⟨conditionApart, valueApart⟩ := forall_mem_append.1 apart
    have readCondition :=
      (reads condition fuel (by omega) conditionPrintable conditionApart).before (.keyword .THEN)
        rfl
    have readValue := (reads value fuel (by omega) valuePrintable valueApart).before token
      (by obtain rfl | rfl := final <;> rfl) rest
    rw [written, append_assoc, cons_append]
    exact simpleWhenClause_last (readCondition _) readValue (by obtain rfl | rfl := final <;> simp)
  | cons condition value next =>
    obtain ⟨conditionPrintable, others⟩ := forall_mem_append.1 printable
    obtain ⟨valuePrintable, nextPrintable⟩ := forall_mem_append.1 others
    obtain ⟨conditionApart, othersApart⟩ := forall_mem_append.1 apart
    obtain ⟨closed, valueAndNext⟩ := forall_mem_cons.1 othersApart
    obtain ⟨valueApart, nextApart⟩ := forall_mem_append.1 valueAndNext
    -- The value does not end in a word, so the WHEN behind it is a token of its own.
    have written : branchTokens (.cons condition value next) =
        tokens condition ++ .keyword .THEN :: (tokens value ++
          .keyword .WHEN :: branchTokens next) := by
      have keyword : wordToken "WHEN".toList = .keyword .WHEN := by decide
      simp only [branchTokens, tokens, closed, wordTokens, if_true, append_nil, nil_append, keyword]
    rw [written, length_append, length_cons, length_append, length_cons] at short enough
    obtain _ | steps := steps
    · omega
    have readCondition :=
      (reads condition fuel (by omega) conditionPrintable conditionApart).before (.keyword .THEN)
        rfl
    have readValue :=
      (reads value fuel (by omega) valuePrintable valueApart).before (.keyword .WHEN) rfl
    have readNext := readsBranches next (fuel + 1) (by omega) nextPrintable nextApart token rest
      final steps (by omega)
    rw [written]
    simp only [append_assoc, cons_append]
    exact simpleWhenClause_cons (readCondition _) (readValue _) readNext

end

/-- The text of a statement is read back when its leaves are written as they are read and its
branches are apart. -/
theorem reparse_emitCheckConstraint (printable : LeavesPrintable validate (leaves statement))
    (apart : ∀ value ∈ joints statement, lastWord value = []) :
    reparse validate (emitCheckConstraint statement) = some statement.asParsed := by
  have read : valueExpression validate ((tokens statement).length + 1)
      (tokens statement ++ []) = some (statement.asParsed, []) :=
    (reads statement _ (le_refl _) printable apart).expression (by simp)
  rw [append_nil] at read
  rw [reparse, lex_emitCheckConstraint printable, read]

end Octo.Constraint
