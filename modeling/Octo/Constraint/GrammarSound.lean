import Octo.Constraint.Accounting

/-!
# The rules of the grammar keep the account

Every rule of the grammar returns a statement that is derived from the tokens it takes, when the
whole expressions it starts are. The rules are gone through from the lists to the logical operators,
and the induction on the depth of nesting ties them together.
-/
namespace Octo.Constraint

open Octo.Dml (DateTimeFormat)
open Octo.Foundation Option List Parser SqlStatement

variable {validate : DateTimeType → DateTimeFormat → List Char → Bool} {statement : SqlStatement}

namespace Derives

variable {used first second : List Token} {statement left right : SqlStatement}
variable {before : List Token}

/-- More tokens around a statement. -/
theorem around (derives : Derives validate used statement) (before after : List Token) :
    Derives validate (before ++ (used ++ after)) statement := by
  refine ⟨(derives.covers.after after).before before, fun lexed => ?_⟩
  obtain ⟨-, inner⟩ := forall_mem_append.1 lexed
  obtain ⟨lexedUsed, -⟩ := forall_mem_append.1 inner
  refine (derives.pays lexedUsed).mono ?_
  rw [width_append, width_append]
  omega

theorem binary (derivesLeft : Derives validate first left) (between : List Token)
    (derivesRight : Derives validate second right) (operation : BinaryOperation) :
    Derives validate (first ++ (between ++ second)) (.binary operation left right) :=
  ⟨derivesLeft.covers.append (derivesRight.covers.before between), fun _ => trivial⟩

theorem unary (derives : Derives validate used statement) (before : List Token)
    (operation : UnaryOperation) :
    Derives validate (before ++ used) (.unary operation statement) :=
  ⟨derives.covers.before before, fun _ => trivial⟩

end Derives

/-- Tokens from which a list was read. -/
structure DerivesCells (validateDateTimeValue : DateTimeType → DateTimeFormat → List Char → Bool)
    (used : List Token) (list : SqlColumnList) : Prop where
  covers : Covers validateDateTimeValue used (leavesOfCells list) (whensOfCells list)
  pays : AllLexed used → ∀ text, list = .last (.value (.literal .integerLiteral text)) →
    text.length ≤ width used

section

variable {expression : Parser Token SqlStatement}
variable (sound : Parser.Sound (Derives validate) expression) {target : SqlStatement}
  (notSpecified : Bool)
include sound

/-! ## Lists and branches -/

theorem sound_inValueList (fuel : Nat) :
    Sound (DerivesCells validate) (inValueList expression fuel) := by
  induction fuel with
  | zero =>
    intro input list rest read
    simp [inValueList] at read
  | succ fuel ih =>
    intro input list rest read
    obtain ⟨used, value, behind, rfl, derives, read⟩ := sound.of_bind read
    dsimp only at read
    split at read
    case h_1 after =>
      obtain ⟨others, next, rfl, derivesNext, rfl⟩ := ih.of_map read
      refine ⟨used ++ ([.sign .comma] ++ others), by simp, ?_, ?_⟩
      · exact derives.covers.append (derivesNext.covers.before _)
      · intro _ text same
        simp at same
    case h_2 =>
      obtain ⟨rfl, rfl⟩ := read_inj read
      refine ⟨used, rfl, derives.covers, fun lexed text same => ?_⟩
      obtain rfl : value = .value (.literal .integerLiteral text) := by simpa using same
      exact derives.pays lexed

omit sound in
/-- What a sound parser reads in parentheses, behind the first of them. -/
theorem sound_closed {α : Type} {relation : List Token → α → Prop} {parser : Parser Token α}
    (sound : Sound relation parser) :
    Sound
      (fun used value => ∃ inside, used = inside ++ [.sign .rightParen] ∧ relation inside value)
      fun input => (parser input).bind fun read =>
        match read.2 with
        | .sign .rightParen :: rest => some (read.1, rest)
        | _ => none := by
  intro input value rest read
  obtain ⟨inside, value, behind, rfl, related, read⟩ := sound.of_bind read
  dsimp only at read
  split at read
  case h_1 =>
    obtain ⟨rfl, rfl⟩ := read_inj read
    exact ⟨inside ++ [.sign .rightParen], by simp, inside, rfl, related⟩
  case h_2 => simp at read

theorem sound_closedList :
    Sound (fun used list => ∃ inside, used = inside ++ [.sign .rightParen] ∧
      DerivesCells validate inside list) (closedList expression) :=
  sound_closed fun _ _ _ read => sound_inValueList sound _ read

theorem sound_closedExpression :
    Sound (fun used statement => ∃ inside, used = inside ++ [.sign .rightParen] ∧
      Derives validate inside statement) (closedExpression expression) :=
  sound_closed sound

theorem sound_endedExpression (final : Token) :
    Sound (fun used statement => ∃ inside, used = inside ++ [final] ∧
      Derives validate inside statement) (endedExpression expression final) := by
  intro input statement rest read
  obtain ⟨inside, value, behind, rfl, derives, read⟩ := sound.of_bind read
  dsimp only at read
  split at read
  case h_1 token after =>
    split at read
    case isTrue same =>
      obtain ⟨rfl, rfl⟩ := read_inj read
      exact ⟨inside ++ [final], by simp [same], inside, rfl, derives⟩
    case isFalse => simp at read
  case h_2 => simp at read

/-- The branches with the WHEN before them. -/
theorem sound_simpleWhenClause (fuel : Nat) :
    Sound (fun used branches => Covers validate (.keyword .WHEN :: used)
      (leavesOfBranches branches) (whensOfBranches branches))
      (simpleWhenClause expression fuel) := by
  induction fuel with
  | zero =>
    intro input branches rest read
    simp [simpleWhenClause] at read
  | succ fuel ih =>
    intro input branches rest read
    obtain ⟨_, condition, afterThen, rfl, ⟨inside, rfl, derives⟩, next⟩ :=
      (sound_endedExpression sound _).of_bind read
    obtain ⟨used, value, afterValue, rfl, derivesValue, read⟩ := sound.of_bind next
    dsimp only at read
    split at read
    case h_1 behind =>
      obtain ⟨others, next, rfl, coversNext, rfl⟩ := ih.of_map read
      refine ⟨inside ++ [.keyword .THEN] ++ (used ++ .keyword .WHEN :: others), by simp, ?_⟩
      exact ((derives.covers.after _).append (derivesValue.covers.append coversNext)).when
    case h_2 =>
      obtain ⟨rfl, rfl⟩ := read_inj read
      refine ⟨inside ++ [.keyword .THEN] ++ used, by simp, ?_⟩
      exact ((derives.covers.after _).append derivesValue.covers).when

/-- A CASE behind the WHEN of its first branch. -/
theorem sound_caseBranches (value : SqlPointer) :
    Sound (fun used statement => ∃ branches optionalElse,
      statement = .cas value branches optionalElse ∧
      Covers validate (.keyword .WHEN :: used)
        (leavesOfBranches branches ++ leavesOfPointer optionalElse)
        (whensOfBranches branches + whensOfPointer optionalElse))
      (caseBranches expression value) := by
  intro input statement rest read
  obtain ⟨used, branches, behind, rfl, covers, read⟩ :=
    (sound_simpleWhenClause sound _).of_bind read
  dsimp only at read
  split at read
  case h_1 after =>
    obtain ⟨⟨otherwise, last⟩, readElse, same⟩ := map_eq_some_iff.1 read
    obtain ⟨rfl, rfl⟩ := Prod.mk.inj same
    obtain ⟨_, rfl, inside, rfl, derives⟩ := sound_endedExpression sound _ readElse
    refine ⟨used ++ ([.keyword .ELSE] ++ (inside ++ [.keyword .END])), by simp, branches,
      .pointsTo otherwise, rfl, ?_⟩
    exact covers.append ((derives.covers.after _).before _)
  case h_2 after =>
    obtain ⟨rfl, rfl⟩ := read_inj read
    refine ⟨used ++ [.keyword .END], by simp, branches, .null, rfl, ?_⟩
    exact covers.append (.nothing _)
  case h_3 => simp at read

/-! ## Primaries -/

theorem sound_namedPrimary :
    Sound (Derives validate) (namedPrimary expression) := by
  intro input statement rest read
  unfold namedPrimary at read
  split at read
  case h_1 call behind found =>
    obtain ⟨rfl, rfl⟩ := read_inj read
    obtain ⟨used, rfl, paid⟩ := qualifiedName_sound 1 found
    refine ⟨used ++ [.sign .leftParen, .sign .rightParen], by simp, .leaf fun lexed => ?_, ?_⟩
    · have name := paid (forall_mem_append.1 lexed).1
      exact ⟨name.nonempty, name.short⟩
    · intro lexed
      have name := paid (forall_mem_append.1 lexed).1
      obtain ⟨printable, -⟩ | cost := name.paid
      · exact .inl (.inl printable)
      · right
        rw [width_append]
        exact Nat.add_lt_add_right cost 2
  case h_2 call behind noParen found =>
    obtain ⟨used, rfl, paid⟩ := qualifiedName_sound 1 found
    obtain ⟨_, list, rfl, ⟨inside, rfl, derives⟩, rfl⟩ := (sound_closedList sound).of_map read
    refine ⟨used ++ ([.sign .leftParen] ++ (inside ++ [.sign .rightParen])), by simp, ?_, ?_⟩
    · have callee : Covers validate used
          [.functionCall call.2 (.last (.value (.literal .integerLiteral ['0'])))] 0 :=
        .leaf fun lexed => ⟨(paid lexed).nonempty, (paid lexed).short⟩
      have := callee.append ((derives.covers.after [.sign .rightParen]).before [.sign .leftParen])
      rwa [Nat.zero_add] at this
    · intro lexed
      obtain ⟨lexedName, lexedRest⟩ := forall_mem_append.1 lexed
      obtain ⟨-, lexedList⟩ := forall_mem_append.1 lexedRest
      unfold Pays
      split
      case h_5 name text same =>
        simp only [functionCall.injEq] at same
        obtain ⟨rfl, sameList⟩ := same
        have cell := derives.pays (forall_mem_append.1 lexedList).1 text sameList
        refine (paid lexedName).paid.imp And.left fun cost => ?_
        simp only [width_append]
        have parens : width [.sign .leftParen] = 1 ∧ width [.sign .rightParen] = 1 := ⟨rfl, rfl⟩
        omega
      all_goals simp_all
  case h_3 =>
    rw [bind_eq_some_iff] at read
    obtain ⟨⟨⟨head, name⟩, after⟩, found, read⟩ := read
    split at read
    case isFalse => simp at read
    case isTrue isReference =>
      obtain ⟨rfl, rfl⟩ := read_inj read
      obtain ⟨used, rfl, paid⟩ := qualifiedName_sound 2 found
      refine ⟨used, rfl, .leaf fun lexed => ⟨(paid lexed).nonempty, (paid lexed).short⟩, ?_⟩
      intro lexed
      refine (paid lexed).paid.imp (fun printable => ⟨printable.1, fun unquoted => ?_⟩) id
      rw [printable.2 unquoted]
      exact isReference

omit sound in
theorem notMem_of_isInteger (integer : isInteger text) : '\'' ∉ text := by
  intro member
  simp only [isInteger, Bool.and_eq_true, List.all_eq_true] at integer
  have := integer.2 _ member
  revert this
  decide

omit sound in
theorem notMem_of_isNumeric (numeric : isNumeric text) : '\'' ∉ text := by
  intro member
  obtain ⟨whole, fraction, rfl, wholeDigits, fractionDigits, -⟩ := isNumeric_iff.1 numeric
  have digit : '\''.isDigit = true ∨ '\'' = '.' := by
    rw [mem_append, mem_cons] at member
    obtain inWhole | point | inFraction := member
    · exact .inl (wholeDigits _ inWhole)
    · exact .inr point
    · exact .inl (fractionDigits _ inFraction)
  revert digit
  decide

omit sound in
theorem sound_dateTimeLiteral :
    Sound (Derives validate) (dateTimeLiteral validate) := by
  intro input statement rest read
  rw [dateTimeLiteral, bind_eq_some_iff] at read
  obtain ⟨⟨⟨type, format⟩, after⟩, typed, read⟩ := read
  obtain ⟨used, rfl, allowed, cost⟩ := datetimeType_sound typed
  dsimp only at read
  split at read
  case h_2 => simp at read
  case h_1 literalType text behind =>
    split at read
    case isFalse => simp at read
    case isTrue valid =>
      obtain ⟨rfl, rfl⟩ := read_inj read
      refine ⟨used ++ [.literal literalType text], by simp, .leaf fun lexed => ?_, ?_⟩
      · have token := lexed (.literal literalType text) (by simp)
        refine ⟨?_, allowed, valid⟩
        rintro rfl
        cases literalType <;> simp [Token.isLexed, isInteger, isNumeric] at token
      · intro lexed inside
        have token := lexed (.literal literalType text) (by simp)
        have quotes : 0 < text.count '\'' := count_pos_iff.2 inside
        -- Numbers have no quotes, so the text stands in quotes.
        cases literalType with
        | stringLiteral =>
          rw [width_append]
          simp only [width, map_cons, sum_cons, Token.width] at cost ⊢
          omega
        | integerLiteral => exact absurd inside (notMem_of_isInteger token)
        | numericLiteral => exact absurd inside (notMem_of_isNumeric token)

omit sound in
theorem length_of_parenlessFunction {word text : List Char}
    (found : wordToken word = .parenlessFunction text) : text.length ≤ octoMaxIdent := by
  unfold wordToken at found
  split at found
  · simp at found
  · split at found
    case isTrue known =>
      obtain ⟨function, member, spelled⟩ := any_eq_true.1 known
      have short : ∀ function ∈ parenlessFunctions, function.toList.length ≤ octoMaxIdent := by
        decide
      have := short function member
      simp only [decide_eq_true_eq] at spelled
      obtain rfl : lower word = text := by simpa using found
      rw [spelled] at this
      simpa [upper, lower] using this
    case isFalse => simp at found

omit sound in
/-- A function without parentheses. -/
theorem derives_parenlessFunction (text : List Char) :
    Derives validate [.parenlessFunction text] (.parmlessCall ⟨false, text⟩) := by
  have word : AllLexed [.parenlessFunction text] →
      isWord text ∧ wordToken text = .parenlessFunction text := by
    intro lexed
    have token := lexed _ (mem_singleton_self _)
    simpa [Token.isLexed] using token
  refine ⟨.leaf fun lexed => ?_, fun lexed => .inl (.inr ⟨rfl, word lexed⟩)⟩
  obtain ⟨isWord, parenless⟩ := word lexed
  refine ⟨?_, length_of_parenlessFunction parenless⟩
  rintro rfl
  revert isWord
  decide

theorem sound_valueExpressionPrimary :
    Sound (Derives validate)
      (valueExpressionPrimary validate expression) := by
  intro input statement rest read
  -- A keyword that is called with a list.
  have called : ∀ (build : SqlColumnList → SqlStatement) {keyword : Token} {behind : List Token},
      (∀ list, leaves (build list) = leavesOfCells list ∧ whens (build list) = whensOfCells list ∧
        ∀ used, Pays used (build list)) →
      (closedList expression behind).map (fun read => (build read.1, read.2)) =
        some (statement, rest) →
      ∃ used, keyword :: .sign .leftParen :: behind = used ++ rest ∧
        Derives validate used statement := by
    intro build keyword behind shape read
    obtain ⟨_, list, rfl, ⟨inside, rfl, derives⟩, rfl⟩ := (sound_closedList sound).of_map read
    obtain ⟨sameLeaves, sameWhens, pays⟩ := shape list
    refine ⟨[keyword, .sign .leftParen] ++ (inside ++ [.sign .rightParen]), by simp, ?_,
      fun _ => pays _⟩
    rw [sameLeaves, sameWhens]
    exact (derives.covers.after _).before _
  unfold valueExpressionPrimary at read
  split at read
  case h_1 type text behind =>
    obtain ⟨rfl, rfl⟩ := read_inj read
    refine ⟨[.literal type text], rfl, .leaf fun lexed => ?_, fun _ => ?_⟩
    · have token := lexed _ (mem_singleton_self _)
      cases type with
      | stringLiteral => exact bne_iff_ne.1 token
      | numericLiteral | integerLiteral => exact token
    · cases type with
      | stringLiteral | integerLiteral => exact Nat.le_refl _
      | numericLiteral => trivial
  case h_2 behind =>
    obtain ⟨rfl, rfl⟩ := read_inj read
    exact ⟨[.emptyString], rfl, .leaf fun _ => trivial, fun _ => trivial⟩
  case h_3 behind =>
    obtain ⟨_, rfl, inside, rfl, derives⟩ := sound_closedExpression sound read
    exact ⟨[.sign .leftParen] ++ (inside ++ [.sign .rightParen]), by simp, derives.around _ _⟩
  case h_4 text behind =>
    obtain ⟨rfl, rfl⟩ := read_inj read
    exact ⟨_, rfl, (derives_parenlessFunction text).around [] [.sign .leftParen, .sign .rightParen]⟩
  case h_5 text behind _ =>
    obtain ⟨rfl, rfl⟩ := read_inj read
    exact ⟨_, rfl, derives_parenlessFunction text⟩
  case h_6 => exact called .coalesce (fun list => ⟨rfl, rfl, fun _ => trivial⟩) read
  case h_7 => exact called .greatest (fun list => ⟨rfl, rfl, fun _ => trivial⟩) read
  case h_8 => exact called .least (fun list => ⟨rfl, rfl, fun _ => trivial⟩) read
  case h_9 behind =>
    obtain ⟨_, left, afterLeft, rfl, ⟨inLeft, rfl, derivesLeft⟩, next⟩ :=
      (sound_endedExpression sound _).of_bind read
    obtain ⟨_, right, rfl, ⟨inRight, rfl, derivesRight⟩, rfl⟩ :=
      (sound_closedExpression sound).of_map next
    refine ⟨[.keyword .NULLIF, .sign .leftParen] ++ ((inLeft ++ [.sign .comma]) ++
      (inRight ++ [.sign .rightParen])), by simp, ?_, fun _ => trivial⟩
    exact ((derivesLeft.covers.after _).append (derivesRight.covers.after _)).before _
  case h_10 behind =>
    obtain ⟨_, target, afterTarget, rfl, ⟨inside, rfl, derives⟩, next⟩ :=
      (sound_endedExpression sound _).of_bind read
    obtain ⟨typeUsed, type, afterType, rfl, -, read⟩ := takes_dataType.of_bind next
    dsimp only at read
    split at read
    case h_2 => simp at read
    case h_1 after =>
      obtain ⟨rfl, rfl⟩ := read_inj read
      refine ⟨[.keyword .CAST, .sign .leftParen] ++ (inside ++
        ([.keyword .AS] ++ (typeUsed ++ [.sign .rightParen]))), by simp, ?_, fun _ => trivial⟩
      exact (derives.covers.after _).before _
  case h_11 behind =>
    obtain ⟨used, rfl, branches, optionalElse, rfl, covers⟩ := sound_caseBranches sound _ read
    refine ⟨[.keyword .CASE] ++ .keyword .WHEN :: used, rfl, ?_, fun _ => trivial⟩
    have := covers.before [.keyword .CASE]
    simpa [leaves, whens, leavesOfPointer, whensOfPointer] using this
  case h_12 behind noWhen =>
    obtain ⟨_, value, afterValue, rfl, ⟨inside, rfl, derives⟩, next⟩ :=
      (sound_endedExpression sound _).of_bind read
    obtain ⟨used, rfl, branches, optionalElse, rfl, covers⟩ := sound_caseBranches sound _ next
    refine ⟨[.keyword .CASE] ++ (inside ++ .keyword .WHEN :: used), by simp, ?_,
      fun _ => trivial⟩
    exact (derives.covers.append covers).before _
  case h_13 token behind _ _ _ _ _ _ _ _ _ _ _ _ =>
    split at read
    case h_1 primary found =>
      obtain ⟨rfl, rfl⟩ := read_inj read
      exact ⟨[token], rfl, .leaf fun _ => trivial, fun _ => trivial⟩
    case h_2 =>
      split at read
      · exact sound_dateTimeLiteral read
      · exact sound_namedPrimary sound read
  case h_14 => simp at read

/-! ## Casts -/

omit sound in
/-- A cast to a class or a procedure is a call of the function of that name. -/
theorem derives_castCall {used : List Token}
    (derives : Derives validate used target) (behind : List Token) (nonempty : text ≠ [])
    (short : text.length ≤ octoMaxIdent) (printable : NamePrintable 2 ⟨false, text⟩) :
    Derives validate (used ++ behind) (.functionCall ⟨false, text⟩ (.last target)) := by
  have callee : Covers validate []
      [.functionCall ⟨false, text⟩ (.last (.value (.literal .integerLiteral ['0'])))] 0 :=
    .leaf fun _ => ⟨nonempty, short⟩
  refine ⟨?_, fun _ => ?_⟩
  · have := callee.append (derives.covers.after behind)
    rwa [Nat.zero_add] at this
  · unfold Pays
    split
    case h_5 name _ same =>
      obtain ⟨rfl, -⟩ := functionCall.inj same
      exact .inl printable
    all_goals simp_all

omit sound in
theorem sound_castSpecification (derives : Derives validate before target)
    (read : castSpecification target input = some (statement, rest)) :
    ∃ used, input = used ++ rest ∧ Derives validate (before ++ used) statement := by
  unfold castSpecification at read
  split at read
  case h_1 | h_2 =>
    obtain ⟨rfl, rfl⟩ := read_inj read
    exact ⟨[_], rfl, derives_castCall derives _ (by decide) (by decide) (by decide)⟩
  case h_3 =>
    obtain ⟨used, type, rfl, -, rfl⟩ := takes_dataType.of_map read
    exact ⟨used, rfl, derives.covers.after used, fun _ => trivial⟩

omit sound in
theorem sound_castRest (fuel : Nat) (derives : Derives validate before target)
    (read : castRest fuel target input = some (statement, rest)) :
    ∃ used, input = used ++ rest ∧ Derives validate (before ++ used) statement := by
  induction fuel, target, input using castRest.induct generalizing before with
  | case1 fuel target behind ih =>
    simp only [castRest, bind_eq_some_iff] at read
    obtain ⟨⟨cast, afterCast⟩, readCast, read⟩ := read
    have colons : Derives validate (before ++ [.sign .colon, .sign .colon]) target :=
      derives.around [] _
    obtain ⟨castUsed, rfl, derivesCast⟩ := sound_castSpecification colons readCast
    obtain ⟨used, rfl, derivesAll⟩ := ih _ derivesCast read
    exact ⟨[.sign .colon, .sign .colon] ++ (castUsed ++ used), by simp, by simpa using derivesAll⟩
  | case2 fuel target input noMatch =>
    rw [castRest] at read
    · obtain ⟨rfl, rfl⟩ := read_inj read
      exact ⟨[], rfl, by simpa using derives⟩
    · exact noMatch

theorem sound_numericPrimary :
    Sound (Derives validate)
      (numericPrimary validate expression) := by
  intro input statement rest read
  obtain ⟨before, primary, afterPrimary, rfl, derives, read⟩ :=
    (sound_valueExpressionPrimary sound).of_bind read
  obtain ⟨used, rfl, derivesAll⟩ := sound_castRest _ derives read
  exact ⟨before ++ used, by simp, derivesAll⟩

/-! ## Operators -/

theorem sound_factor :
    Sound (Derives validate) (factor validate expression) := by
  intro input statement rest read
  unfold factor at read
  split at read
  case h_1 | h_2 =>
    obtain ⟨used, operand, rfl, derives, rfl⟩ := (sound_numericPrimary sound).of_map read
    exact ⟨_ :: used, rfl, derives.unary [_] _⟩
  case h_3 => exact sound_numericPrimary sound read

omit sound in
/-- A chain of operands that are derived from their tokens. -/
theorem sound_operatorChain {operand : Parser Token SqlStatement}
    {operator : Parser Token BinaryOperation}
    (operands : Sound (Derives validate) operand) (takes : Takes operator) :
    Sound (Derives validate) (chain operand (combining operator)) := by
  have operators : Sound (fun _ combine => ∃ operation, combine = .binary operation)
      (combining operator) := by
    intro input combine rest read
    obtain ⟨used, operation, rfl, -, rfl⟩ := takes.of_map read
    exact ⟨used, rfl, operation, rfl⟩
  refine operands.chain operators ?_
  rintro leftUsed operatorUsed rightUsed left right combine derivesLeft ⟨operation, rfl⟩
    derivesRight
  exact derivesLeft.binary operatorUsed derivesRight operation

theorem sound_numericValueExpression :
    Sound (Derives validate)
      (numericValueExpression validate expression) :=
  sound_operatorChain (sound_operatorChain (sound_factor sound) takes_operators.1)
    takes_operators.2.1

theorem sound_comparisonRest {left : SqlStatement} (derives : Derives validate before left)
    (read : comparisonRest validate expression left input = some (statement, rest)) :
    ∃ used, input = used ++ rest ∧ Derives validate (before ++ used) statement := by
  unfold comparisonRest at read
  split at read
  case h_1 =>
    obtain ⟨rfl, rfl⟩ := read_inj read
    exact ⟨[], rfl, by simpa using derives⟩
  case h_2 negated operation afterOperator found =>
    obtain ⟨operatorUsed, rfl, -⟩ := takes_comparisonOperator found
    obtain ⟨used, right, rfl, derivesRight, rfl⟩ :=
      (sound_numericValueExpression sound).of_map read
    have compared := derives.binary operatorUsed derivesRight operation
    refine ⟨operatorUsed ++ used, by simp, ?_⟩
    cases negated with
    | false => exact compared
    | true => exact compared.unary [] _

theorem sound_comparisonPredicate :
    Sound (Derives validate)
      (comparisonPredicate validate expression) := by
  intro input statement rest read
  obtain ⟨before, left, afterLeft, rfl, derives, read⟩ :=
    (sound_numericValueExpression sound).of_bind read
  obtain ⟨used, rfl, derivesAll⟩ := sound_comparisonRest sound derives read
  exact ⟨before ++ used, by simp, derivesAll⟩

omit sound in
/-- Both comparisons of a BETWEEN are made of its three operands, and their branches are not
counted. -/
theorem derives_betweenPredicate {operandUsed lowerUsed upperUsed : List Token}
    {operand lower upper : SqlStatement} (derives : Derives validate operandUsed operand)
    (derivesLower : Derives validate lowerUsed lower)
    (derivesUpper : Derives validate upperUsed upper) (before between : List Token) :
    Derives validate
      (operandUsed ++ (before ++ .keyword .BETWEEN :: (lowerUsed ++ (between ++ upperUsed))))
      (betweenPredicate notSpecified operand lower upper) := by
  have compared : ∀ outer first second, Derives validate
      (operandUsed ++ (before ++ .keyword .BETWEEN :: (lowerUsed ++ (between ++ upperUsed))))
      (.binary outer (.binary first operand lower) (.binary second operand upper)) := by
    intro outer first second
    refine ⟨⟨fun lexed leaf member => ?_, fun noBetween => absurd (by simp) noBetween⟩,
      fun _ => trivial⟩
    simp only [AllLexed, forall_mem_append, forall_mem_cons] at lexed
    obtain ⟨lexedOperand, -, -, lexedLower, -, lexedUpper⟩ := lexed
    simp only [leaves, mem_append] at member
    obtain (inOperand | inLower) | (inOperand | inUpper) := member
    · exact derives.covers.leaves lexedOperand leaf inOperand
    · exact derivesLower.covers.leaves lexedLower leaf inLower
    · exact derives.covers.leaves lexedOperand leaf inOperand
    · exact derivesUpper.covers.leaves lexedUpper leaf inUpper
  unfold betweenPredicate
  split
  · exact compared ..
  · exact compared ..

theorem sound_betweenRest {operandUsed input rest : List Token} {operand : SqlStatement}
    (before : List Token) (derives : Derives validate operandUsed operand)
    (read : betweenRest validate expression notSpecified operand input =
      some (statement, rest)) :
    ∃ used, input = used ++ rest ∧ Derives validate
      (operandUsed ++ (before ++ .keyword .BETWEEN :: used)) statement := by
  obtain ⟨lowerUsed, lower, afterLower, rfl, derivesLower, read⟩ :=
    (sound_comparisonPredicate sound).of_bind read
  dsimp only at read
  split at read
  case h_1 behind =>
    obtain ⟨upperUsed, upper, rfl, derivesUpper, rfl⟩ :=
      (sound_comparisonPredicate sound).of_map read
    exact ⟨lowerUsed ++ ([.keyword .AND] ++ upperUsed), by simp,
      derives_betweenPredicate notSpecified derives derivesLower derivesUpper before _⟩
  case h_2 => simp at read

theorem sound_predicate :
    Sound (Derives validate) (predicate validate expression) := by
  intro input statement rest read
  obtain ⟨before, operand, afterOperand, rfl, derives, read⟩ :=
    (sound_numericValueExpression sound).of_bind read
  -- `IN` is the same with and without a `NOT` before it.
  have listed : ∀ (negated : Bool) (words : List Token) {behind : List Token},
      (closedList expression behind).map
          (fun list => (booleanIn negated operand list.1, list.2)) =
        some (statement, rest) →
      ∃ used, before ++ (words ++ behind) = used ++ rest ∧
        Derives validate used statement := by
    intro negated words behind read
    obtain ⟨_, list, rfl, ⟨inside, rfl, derivesList⟩, rfl⟩ := (sound_closedList sound).of_map read
    refine ⟨before ++ (words ++ (inside ++ [.sign .rightParen])), by simp, ?_, fun _ => trivial⟩
    exact derives.covers.append ((derivesList.covers.after _).before _)
  dsimp only at read
  split at read
  case h_1 behind =>
    obtain ⟨used, rfl, derivesAll⟩ := sound_betweenRest sound _ [] derives read
    exact ⟨_, by simp, derivesAll⟩
  case h_2 behind =>
    obtain ⟨used, rfl, derivesAll⟩ := sound_betweenRest sound _ [.keyword .NOT] derives read
    exact ⟨_, by simp, derivesAll⟩
  case h_3 behind => exact listed false [_, _] read
  case h_4 behind => exact listed true [_, _, _] read
  case h_5 =>
    obtain ⟨used, rfl, derivesAll⟩ := sound_comparisonRest sound derives read
    exact ⟨before ++ used, by simp, derivesAll⟩

theorem sound_booleanTest :
    Sound (Derives validate) (booleanTest validate expression) := by
  intro input statement rest read
  obtain ⟨before, operand, afterOperand, rfl, derives, read⟩ := (sound_predicate sound).of_bind read
  dsimp only at read
  split at read
  case h_1 token behind _ =>
    obtain ⟨primary, -, same⟩ := map_eq_some_iff.1 read
    obtain ⟨rfl, rfl⟩ := Prod.mk.inj same
    exact ⟨before ++ [.keyword .IS, .keyword .NOT, token], by simp, derives.covers.after _,
      fun _ => trivial⟩
  case h_2 token behind _ _ =>
    obtain ⟨primary, -, same⟩ := map_eq_some_iff.1 read
    obtain ⟨rfl, rfl⟩ := Prod.mk.inj same
    exact ⟨before ++ [.keyword .IS, token], by simp, derives.covers.after _, fun _ => trivial⟩
  case h_3 =>
    obtain ⟨rfl, rfl⟩ := read_inj read
    exact ⟨before, rfl, derives⟩

theorem sound_booleanFactor :
    Sound (Derives validate)
      (booleanFactor validate expression) := by
  intro input statement rest read
  induction input using booleanFactor.induct generalizing statement with
  | case1 behind ih =>
    simp only [booleanFactor, map_eq_some_iff, Prod.exists] at read
    obtain ⟨operand, after, readOperand, rfl, rfl⟩ := read
    obtain ⟨used, rfl, derives⟩ := ih readOperand
    exact ⟨_ :: used, rfl, derives.unary [_] _⟩
  | case2 input noNot =>
    rw [booleanFactor] at read
    · exact sound_booleanTest sound read
    · exact noNot

theorem sound_searchCondition :
    Sound (Derives validate)
      (searchCondition validate expression) :=
  sound_operatorChain (sound_operatorChain (sound_booleanFactor sound) takes_operators.2.2.1)
    takes_operators.2.2.2

end

/-- Every expression is derived from the tokens it was read from. -/
theorem sound_valueExpression (fuel : Nat) :
    Sound (Derives validate) (valueExpression validate fuel) := by
  induction fuel with
  | zero =>
    intro input statement rest read
    simp [valueExpression] at read
  | succ fuel ih =>
    intro input statement rest read
    exact sound_searchCondition ih read

/-- A statement that a text is read as is derived from the tokens of the text. -/
theorem derives_of_reparse
    (read : reparse validate text = some statement) : Derives validate (lex text) statement := by
  unfold reparse at read
  split at read
  case h_1 found whole =>
    obtain rfl := some.inj read
    obtain ⟨used, same, derives⟩ := sound_valueExpression _ whole
    rwa [same, append_nil]
  case h_2 => simp at read

end Octo.Constraint
