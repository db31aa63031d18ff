import Octo.Constraint.Grammar
import Octo.Constraint.Lexemes

/-!
# The tokens of a written statement

The text of a statement as the lexer sees it. A text may end in a word, and then its last token
depends on what follows: between two branches of a CASE nothing is written, and the last word of a
value and the WHEN of the next branch are one word. So the tokens of a statement are those before
its last word, and the last word itself. Literals and names are the leaves of a statement. When all
leaves are written as they are read, the tokens of the whole text are known.
-/
namespace Octo.Constraint

open Octo.Dml (DateTimeFormat)

/-! ## Statements as the parser builds them -/

/-- The operation before the type check. -/
def BinaryOperation.asParsed : BinaryOperation → BinaryOperation
  | .dateTimeAddition => .addition
  | .dateTimeSubtraction => .subtraction
  | operation => operation

mutual

/-- A statement before the type check. -/
def SqlStatement.asParsed : SqlStatement → SqlStatement
  | .value value => .value value
  | .coerce target type => .coerce target.asParsed type
  | .unary operation operand => .unary operation operand.asParsed
  | .binary operation left right => .binary operation.asParsed left.asParsed right.asParsed
  | .booleanIs negated operand primary => .booleanIs negated operand.asParsed primary
  | .booleanIn negated operand list => .booleanIn negated operand.asParsed list.asParsed
  | .functionCall name parameters => .functionCall name parameters.asParsed
  | .parmlessCall name => .parmlessCall name
  | .coalesce arguments => .coalesce arguments.asParsed
  | .greatest arguments => .greatest arguments.asParsed
  | .least arguments => .least arguments.asParsed
  | .nullIf left right => .nullIf left.asParsed right.asParsed
  | .cas value branches optionalElse => .cas value.asParsed branches.asParsed optionalElse.asParsed

def SqlPointer.asParsed : SqlPointer → SqlPointer
  | .null => .null
  | .pointsTo statement => .pointsTo statement.asParsed

def SqlColumnList.asParsed : SqlColumnList → SqlColumnList
  | .last value => .last value.asParsed
  | .cons value next => .cons value.asParsed next.asParsed

def SqlCaseBranch.asParsed : SqlCaseBranch → SqlCaseBranch
  | .last condition value => .last condition.asParsed value.asParsed
  | .cons condition value next => .cons condition.asParsed value.asParsed next.asParsed

end

/-! ## Leaves -/

mutual

/-- The literals, the names and the keywords of a statement, each in its smallest expression: a
name that is called is the name of a call with a zero. -/
def leaves : SqlStatement → List SqlStatement
  | .value value => [.value value]
  | .coerce target _ => leaves target
  | .unary _ operand => leaves operand
  | .binary _ left right => leaves left ++ leaves right
  | .booleanIs _ operand _ => leaves operand
  | .booleanIn _ operand list => leaves operand ++ leavesOfCells list
  | .functionCall name parameters =>
    .functionCall name (.last (.value (.literal .integerLiteral ['0']))) ::
      leavesOfCells parameters
  | .parmlessCall name => [.parmlessCall name]
  | .coalesce arguments | .greatest arguments | .least arguments => leavesOfCells arguments
  | .nullIf left right => leaves left ++ leaves right
  | .cas value branches optionalElse =>
    leavesOfPointer value ++ (leavesOfBranches branches ++ leavesOfPointer optionalElse)

def leavesOfPointer : SqlPointer → List SqlStatement
  | .null => []
  | .pointsTo statement => leaves statement

def leavesOfCells : SqlColumnList → List SqlStatement
  | .last value => leaves value
  | .cons value next => leaves value ++ leavesOfCells next

def leavesOfBranches : SqlCaseBranch → List SqlStatement
  | .last condition value => leaves condition ++ leaves value
  | .cons condition value next => leaves condition ++ (leaves value ++ leavesOfBranches next)

end

/-- A word that is read as the name it is. -/
def isPlain (part : List Char) : Bool :=
  isWord part && columnName (wordToken part) == some part

/-- The parts of a name. -/
def nameParts (text : List Char) : List (List Char) :=
  text.splitOn '.'

/-- A name without double quotes whose parts are words. -/
def IsPath (limit : Nat) (text : List Char) : Prop :=
  (nameParts text).length ≤ limit ∧ ∀ part ∈ nameParts text, isPlain part

instance (limit : Nat) (text : List Char) : Decidable (IsPath limit text) :=
  inferInstanceAs (Decidable (_ ∧ _))

/-- A name that is written as it is read: nothing is quoted in it. -/
def NamePrintable (limit : Nat) (name : Name) : Prop :=
  if name.isDoubleQuoted then Char.ofNat 34 ∉ name.text else IsPath limit name.text

instance (limit : Nat) (name : Name) : Decidable (NamePrintable limit name) :=
  inferInstanceAs
    (Decidable (if name.isDoubleQuoted then Char.ofNat 34 ∉ name.text else IsPath limit name.text))

/-- The leaves that are written as they are read. -/
def LeafPrintable : SqlStatement → Prop
  | .value (.literal .stringLiteral text) | .value (.dateTimeLiteral _ _ text) => '\'' ∉ text
  | .value (.columnReference name) =>
    NamePrintable 3 name ∧ (name.isDoubleQuoted = false →
      isReferenceHead (wordToken ((nameParts name.text).headD [])))
  | .functionCall name _ => NamePrintable 2 name
  | .parmlessCall name =>
    NamePrintable 2 name ∨ name.isDoubleQuoted = false ∧ isWord name.text ∧
      wordToken name.text = .parenlessFunction name.text
  | _ => True

instance : DecidablePred LeafPrintable
  | .value (.literal .stringLiteral text) => inferInstanceAs (Decidable ('\'' ∉ text))
  | .value (.dateTimeLiteral _ _ text) => inferInstanceAs (Decidable ('\'' ∉ text))
  | .value (.columnReference name) => inferInstanceAs (Decidable (NamePrintable 3 name ∧ (_ → _)))
  | .functionCall name _ => inferInstanceAs (Decidable (NamePrintable 2 name))
  | .parmlessCall name => inferInstanceAs (Decidable (NamePrintable 2 name ∨ _ ∧ _ ∧ _))
  | .value (.booleanPrimary _) | .value (.literal .numericLiteral _)
  | .value (.literal .integerLiteral _) | .coerce .. | .unary .. | .binary .. | .booleanIs ..
  | .booleanIn .. | .coalesce .. | .greatest .. | .least .. | .nullIf .. | .cas .. => isTrue trivial

/-- What the grammar requires of a leaf. The check of a date or a time depends on the format in
which texts of dates are written. -/
def LeafRead (validateDateTimeValue : DateTimeType → DateTimeFormat → List Char → Bool) :
    SqlStatement → Prop
  | .value (.literal .stringLiteral text) => text ≠ []
  | .value (.literal .integerLiteral text) => isInteger text
  | .value (.literal .numericLiteral text) => isNumeric text
  | .value (.dateTimeLiteral type format text) =>
    text ≠ [] ∧ allowsFormat type format ∧ validateDateTimeValue type format text
  | .value (.columnReference name) | .functionCall name _ | .parmlessCall name =>
    name.text ≠ [] ∧ name.text.length ≤ octoMaxIdent
  | _ => True

/-! ## Tokens -/

/-- The last token of a text that ends in a word. -/
def wordTokens (word : List Char) : List Token :=
  if word = [] then [] else [wordToken word]

/-- The last part of a name without double quotes. -/
def nameLast (name : Name) : List Char :=
  if name.isDoubleQuoted then [] else (nameParts name.text).getLastD []

/-- The name of a type, when the text of the type ends with it. -/
def typeLast (type : CoercedType) : List Char :=
  match type with
  | .dateTime .timeWithTimeZone | .dateTime .timestampWithTimeZone => []
  | type => if type.sizes = [] then getUserVisibleTypeString type else []

/-- The word that the text of a statement ends in. -/
def lastWord : SqlStatement → List Char
  | .value (.booleanPrimary primary) => primary.text
  | .value (.columnReference name) => nameLast name
  | .coerce _ type => typeLast type
  | .cas .. => "END".toList
  | _ => []

/-- The parts of a name before the last one, each with its period. -/
def pathBody : List (List Char) → List Token
  | part :: next :: parts => wordToken part :: .sign .period :: pathBody (next :: parts)
  | _ => []

/-- A name before its last word. -/
def nameBody (name : Name) : List Token :=
  if name.isDoubleQuoted then [.doubleQuoteLiteral name.text] else pathBody (nameParts name.text)

/-- A format in parentheses. -/
def formatTokens : DateTimeFormat → List Token
  | .text => []
  | .horolog => [.sign .leftParen, .keyword .HOROLOG, .sign .rightParen]
  | .zhorolog => [.sign .leftParen, .keyword .ZHOROLOG, .sign .rightParen]
  | .fileman => [.sign .leftParen, .keyword .FILEMAN, .sign .rightParen]
  | .zut => [.sign .leftParen, .keyword .ZUT, .sign .rightParen]

/-- The keyword of a date or a time, and the time zone behind a format. -/
def DateTimeType.tokens : DateTimeType → Token × List Token
  | .date => (.keyword .DATE, [])
  | .time => (.keyword .TIME, [])
  | .timeWithTimeZone => (.keyword .TIME, [.keyword .WITH_TIME_ZONE])
  | .timestamp => (.keyword .TIMESTAMP, [])
  | .timestampWithTimeZone => (.keyword .TIMESTAMP, [.keyword .WITH_TIME_ZONE])

/-- A type and a format before a literal of a date or a time. -/
def dateTimeTokens (type : DateTimeType) (format : DateTimeFormat) : List Token :=
  type.tokens.1 :: (formatTokens format ++ type.tokens.2)

/-- A value before its last word. -/
def valueBody : SqlValue → List Token
  | .booleanPrimary _ => []
  | .literal type text => [.literal type text]
  | .dateTimeLiteral type format text =>
    dateTimeTokens type format ++ [.literal .stringLiteral text]
  | .columnReference name => nameBody name

/-- A size as a token. -/
def sizeToken (size : Size) : Token :=
  .literal .integerLiteral (decimal size)

/-- The sizes of a type in parentheses. -/
def sizesTokens : List Size → List Token
  | [] => []
  | size :: scale =>
    .sign .leftParen :: sizeToken size ::
      (scale.flatMap (fun size => [.sign .comma, sizeToken size]) ++ [.sign .rightParen])

/-- A type before its last word. -/
def typeBody : CoercedType → List Token
  | .dateTime .timeWithTimeZone => [.keyword .TIME, .keyword .WITH_TIME_ZONE]
  | .dateTime .timestampWithTimeZone => [.keyword .TIMESTAMP, .keyword .WITH_TIME_ZONE]
  | type =>
    if type.sizes = [] then []
    else wordToken (getUserVisibleTypeString type) :: sizesTokens type.sizes

/-- The operator of a statement with one operand. -/
def unaryTokens : UnaryOperation → List Token
  | .forceNum => [.sign .plus]
  | .negative => [.sign .minus]
  | .booleanNot => [.keyword .NOT]

/-- The operator of a statement with two operands. -/
def binaryTokens : BinaryOperation → List Token
  | .addition | .dateTimeAddition => [.sign .plus]
  | .subtraction | .dateTimeSubtraction => [.sign .minus]
  | .division => [.sign .solidus]
  | .multiplication => [.sign .asterisk]
  | .modulo => [.sign .percent]
  | .concat => [.sign .pipe, .sign .pipe]
  | .booleanOr => [.keyword .OR]
  | .booleanAnd => [.keyword .AND]
  | .booleanEquals => [.sign .equals]
  | .booleanNotEquals => [.sign .notEquals]
  | .booleanLessThan => [.sign .lessThan]
  | .booleanGreaterThan => [.sign .greaterThan]
  | .booleanLessThanOrEquals => [.sign .lessThanOrEquals]
  | .booleanGreaterThanOrEquals => [.sign .greaterThanOrEquals]
  | .booleanRegexSensitive => [.sign .tilde]
  | .booleanRegexInsensitive => [.sign .tilde, .sign .asterisk]
  | .booleanRegexSensitiveLike => [.keyword .LIKE]
  | .booleanRegexInsensitiveLike => [.keyword .ILIKE]
  | .booleanRegexSensitiveSimilarto => [.keyword .SIMILAR, .keyword .TO]

/-- A keyword, behind a NOT when it is negated. -/
def isTokens (negated : Bool) : List Token :=
  if negated then [.keyword .IS, .keyword .NOT] else [.keyword .IS]

/-- The operator before a list. -/
def inTokens (negated : Bool) : List Token :=
  if negated then [.keyword .NOT, .keyword .IN] else [.keyword .IN]

mutual

/-- The tokens of a statement before its last word. -/
def bodyTokens : SqlStatement → List Token
  | .value value => valueBody value
  | .coerce target type =>
    bodyTokens target ++ wordTokens (lastWord target) ++
      (.sign .colon :: .sign .colon :: typeBody type)
  | .unary operation operand =>
    .sign .leftParen :: unaryTokens operation ++
      (bodyTokens operand ++ wordTokens (lastWord operand)) ++ [.sign .rightParen]
  | .binary operation left right =>
    .sign .leftParen :: (bodyTokens left ++ wordTokens (lastWord left)) ++
      binaryTokens operation ++ (bodyTokens right ++ wordTokens (lastWord right)) ++
      [.sign .rightParen]
  | .booleanIs negated operand primary =>
    .sign .leftParen :: (bodyTokens operand ++ wordTokens (lastWord operand)) ++
      isTokens negated ++ wordTokens primary.text ++ [.sign .rightParen]
  | .booleanIn negated operand list =>
    .sign .leftParen :: (bodyTokens operand ++ wordTokens (lastWord operand)) ++
      inTokens negated ++ .sign .leftParen :: cellTokens list ++
      [.sign .rightParen, .sign .rightParen]
  | .functionCall name parameters =>
    nameBody name ++ wordTokens (nameLast name) ++ .sign .leftParen :: cellTokens parameters ++
      [.sign .rightParen]
  | .parmlessCall name =>
    nameBody name ++ wordTokens (nameLast name) ++ [.sign .leftParen, .sign .rightParen]
  | .coalesce arguments =>
    .keyword .COALESCE :: .sign .leftParen :: cellTokens arguments ++ [.sign .rightParen]
  | .greatest arguments =>
    .keyword .GREATEST :: .sign .leftParen :: cellTokens arguments ++ [.sign .rightParen]
  | .least arguments =>
    .keyword .LEAST :: .sign .leftParen :: cellTokens arguments ++ [.sign .rightParen]
  | .nullIf left right =>
    .keyword .NULLIF :: .sign .leftParen :: (bodyTokens left ++ wordTokens (lastWord left)) ++
      .sign .comma :: (bodyTokens right ++ wordTokens (lastWord right)) ++ [.sign .rightParen]
  | .cas value branches optionalElse =>
    .keyword .CASE :: caseValueTokens value ++ .keyword .WHEN :: branchTokens branches ++
      elseTokens optionalElse

def caseValueTokens : SqlPointer → List Token
  | .null => []
  | .pointsTo statement => bodyTokens statement ++ wordTokens (lastWord statement)

def elseTokens : SqlPointer → List Token
  | .null => []
  | .pointsTo statement =>
    .keyword .ELSE :: (bodyTokens statement ++ wordTokens (lastWord statement))

def cellTokens : SqlColumnList → List Token
  | .last value => bodyTokens value ++ wordTokens (lastWord value)
  | .cons value next =>
    bodyTokens value ++ wordTokens (lastWord value) ++ .sign .comma :: cellTokens next

/-- The branches of a CASE behind their first WHEN. The last word of a value is one word with the
WHEN behind it. -/
def branchTokens : SqlCaseBranch → List Token
  | .last condition value =>
    bodyTokens condition ++ wordTokens (lastWord condition) ++
      .keyword .THEN :: (bodyTokens value ++ wordTokens (lastWord value))
  | .cons condition value next =>
    bodyTokens condition ++ wordTokens (lastWord condition) ++
      .keyword .THEN :: (bodyTokens value ++
        wordToken (lastWord value ++ "WHEN".toList) :: branchTokens next)

end

/-- The tokens of a statement. -/
def tokens (statement : SqlStatement) : List Token :=
  bodyTokens statement ++ wordTokens (lastWord statement)

/-! ## Joints -/

mutual

/-- The values of branches that are followed by another branch. -/
def joints : SqlStatement → List SqlStatement
  | .value _ | .parmlessCall _ => []
  | .coerce target _ => joints target
  | .unary _ operand => joints operand
  | .binary _ left right => joints left ++ joints right
  | .booleanIs _ operand _ => joints operand
  | .booleanIn _ operand list => joints operand ++ jointsOfCells list
  | .functionCall _ parameters => jointsOfCells parameters
  | .coalesce arguments | .greatest arguments | .least arguments => jointsOfCells arguments
  | .nullIf left right => joints left ++ joints right
  | .cas value branches optionalElse =>
    jointsOfPointer value ++ (jointsOfBranches branches ++ jointsOfPointer optionalElse)

def jointsOfPointer : SqlPointer → List SqlStatement
  | .null => []
  | .pointsTo statement => joints statement

def jointsOfCells : SqlColumnList → List SqlStatement
  | .last value => joints value
  | .cons value next => joints value ++ jointsOfCells next

def jointsOfBranches : SqlCaseBranch → List SqlStatement
  | .last condition value => joints condition ++ joints value
  | .cons condition value next =>
    joints condition ++ (value :: joints value ++ jointsOfBranches next)

end

/-- A statement whose text is read back. -/
structure Printable (statement : SqlStatement) : Prop where
  leaves : ∀ leaf ∈ leaves statement, LeafPrintable leaf
  joints : ∀ value ∈ joints statement, lastWord value = []

end Octo.Constraint
