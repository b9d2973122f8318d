import IncrementalC.Syntax.Tree
import IncrementalC.Token.Lexer

/-!
Contract: reading programs from tokens.

The reader looks one token ahead (two, for an empty parameter list written
`(void)`). Reading stops with `incomplete` when a token is missing at the end of
the input, and with a diagnostic when the token at hand is wrong.

Statements, expressions and the operands of unary operators may nest
`nestingLimit` deep. Every reader that can contain itself takes the nesting still
allowed as a number and recurses on it; loops over lists of tokens take the number
of tokens of the whole text as a bound, which they cannot reach because each round
takes a token.

Owns:
- the readers of each part of a program and the wording of what they report.

Does not own: the tree itself, or whether the names in it are declared.
-/

namespace IncrementalC.Syntax

/-- How deep statements, expressions and unary operands may nest. -/
def nestingLimit : Nat := 128

/-! ## Reports -/

/-- What a reader was looking for. -/
inductive Expectation where
  | mark (symbol : Mark)
  | identifier
  | expression
  | semicolonOrBody
deriving DecidableEq, Repr

/-- The wording of what was looked for. -/
def Expectation.describe : Expectation → String
  | .mark symbol => "`" ++ String.ofList symbol.spelling ++ "`"
  | .identifier => "identifier"
  | .expression => "expression"
  | .semicolonOrBody => "`;` or function body"

/-- What can be wrong with a token. -/
inductive SyntaxProblem where
  | expected (expectation : Expectation) (found : Lexeme)
  | expectedDeclaration
  | expectedParameterType
  | externalVariable (name : String)
  | externalBody
  | unsupportedLocal
  | nestingTooDeep
deriving DecidableEq, Repr

namespace SyntaxProblem

/-- The kind of report for a problem. -/
def code : SyntaxProblem → DiagnosticCode
  | .nestingTooDeep => .nestingTooDeep
  | _ => .unexpectedToken

/-- The wording of a problem. -/
def message : SyntaxProblem → String
  | .expected expectation found =>
    "expected " ++ expectation.describe ++ ", found " ++ found.describe
  | .expectedDeclaration => "expected a declaration"
  | .expectedParameterType => "expected parameter type"
  | .externalVariable name => "extern variable `" ++ name ++ "` is not supported"
  | .externalBody => "extern function cannot have a body"
  | .unsupportedLocal => "only `int` locals are supported"
  | .nestingTooDeep => "nesting exceeds the limit of " ++ toString nestingLimit

def reportAt (problem : SyntaxProblem) (span : Span) : Diagnostic :=
  ⟨problem.code, problem.message, span⟩

end SyntaxProblem

/-! ## Readers -/

/-- A reader takes tokens from the front and yields a result and what is left. -/
def Parser (α : Type) : Type := List Token → Except SourceError (α × List Token)

namespace Parser

instance : Monad Parser where
  pure result := fun tokens => .ok (result, tokens)
  bind reader next := fun tokens =>
    match reader tokens with
    | .error problem => .error problem
    | .ok (result, rest) => next result rest

/-- The token at hand. Past the last token there is only the end of input. -/
def current : Parser Token := fun tokens =>
  .ok (tokens.headD ⟨.endOfInput, .nowhere⟩, tokens)

/-- The lexeme at hand. -/
def currentLexeme : Parser Lexeme := do
  return (← current).lexeme

/-- The span of the token at hand. -/
def currentSpan : Parser Span := do
  return (← current).span

/-- Takes the token at hand; the end of input is never taken. -/
def take : Parser Token := fun tokens =>
  match tokens with
  | [] => .ok (⟨.endOfInput, .nowhere⟩, [])
  | token :: rest =>
    if token.lexeme = .endOfInput then .ok (token, tokens) else .ok (token, rest)

/-- Stops with a report, whatever the token at hand. -/
def reject {α : Type} (problem : SyntaxProblem) (span : Span) : Parser α := fun _ =>
  .error (.invalid (problem.reportAt span))

/-- Stops because of the token at hand. At the end of input something is only
missing. -/
def fail {α : Type} (problem : SyntaxProblem) : Parser α := do
  let token ← current
  if token.lexeme = .endOfInput then fun _ => .error .incomplete
  else reject problem token.span

/-- Takes the token at hand if it is `lexeme`, and says whether it was. -/
def accept (lexeme : Lexeme) : Parser Bool := do
  if (← currentLexeme) = lexeme then
    let _ ← take
    return true
  else
    return false

/-- Takes the mark that has to stand here and yields its span. -/
def expect (symbol : Mark) (expectation : Expectation) : Parser Span := do
  let token ← current
  if token.lexeme = .mark symbol then
    let _ ← take
    return token.span
  else
    fail (.expected expectation token.lexeme)

/-- Takes the mark that has to stand here, asking for it by its spelling. -/
def expectMark (symbol : Mark) : Parser Span := expect symbol (.mark symbol)

/-- Takes a name and yields it with its span. -/
def identifier : Parser (String × Span) := do
  let token ← current
  match token.lexeme with
  | .identifier name =>
    let _ ← take
    return (name, token.span)
  | other => fail (.expected .identifier other)

/-- Takes the name of a type if one stands here. -/
def typeName? : Parser (Option TypeName) := do
  match (← currentLexeme) with
  | .keyword .intType => let _ ← take; return some .int
  | .keyword .voidType => let _ ← take; return some .void
  | .keyword .autoType => let _ ← take; return some .auto
  | _ => return none

/-- Stops where nesting goes too deep, even at the end of input. -/
def tooDeep {α : Type} : Parser α := do
  reject .nestingTooDeep (← currentSpan)

/-! ## Expressions -/

/-- The binary operators of one precedence. -/
abbrev OperatorLevel : Type := Mark → Option BinaryOperator

/-- The precedences, loosest first. -/
def operatorLevels : List OperatorLevel :=
  [ fun | .orOr => some .or | _ => none,
    fun | .andAnd => some .and | _ => none,
    fun
    | .equal => some (.strict .equal)
    | .notEqual => some (.strict .notEqual)
    | _ => none,
    fun
    | .lessEqual => some (.strict .lessEqual)
    | .less => some (.strict .less)
    | .greaterEqual => some (.strict .greaterEqual)
    | .greater => some (.strict .greater)
    | _ => none,
    fun
    | .plus => some (.strict .add)
    | .minus => some (.strict .subtract)
    | _ => none,
    fun
    | .star => some (.strict .multiply)
    | .slash => some (.strict .divide)
    | .percent => some (.strict .remainder)
    | _ => none ]

def operatorOf? (level : OperatorLevel) : Lexeme → Option BinaryOperator
  | .mark symbol => level symbol
  | _ => none

/-- Continues `left` with operators of one precedence, grouping to the left. -/
def leftAssociative (level : OperatorLevel) (operand : Parser Expression) :
    (bound : Nat) → (left : Expression) → Parser Expression
  | 0, left => pure left
  | bound + 1, left => do
    match operatorOf? level (← currentLexeme) with
    | none => return left
    | some operator =>
      let _ ← take
      let right ← operand
      leftAssociative level operand bound
        (.binary operator left right (left.span.through right.span))

/-- Reads operators of the given precedences over `operand`. -/
def binaryLevels (bound : Nat) (operand : Parser Expression) :
    List OperatorLevel → Parser Expression
  | [] => operand
  | level :: tighter => do
    let left ← binaryLevels bound operand tighter
    leftAssociative level (binaryLevels bound operand tighter) bound left

/-- Reads one or more expressions separated by commas. -/
def commaSeparated (expression : Parser Expression) : (bound : Nat) → Parser (List Expression)
  | 0 => pure []
  | bound + 1 => do
    let first ← expression
    if ← accept (.mark .comma) then
      return first :: (← commaSeparated expression bound)
    else
      return [first]

/-- Reads an integer, a name, a call or an expression in parentheses. -/
def primary (bound : Nat) (expression : Parser Expression) : Parser Expression := do
  let token ← current
  match token.lexeme with
  | .integer value =>
    let _ ← take
    return .integer value token.span
  | .identifier name =>
    let _ ← take
    if ← accept (.mark .openParen) then
      if (← currentLexeme) = .mark .closeParen then
        let close ← expectMark .closeParen
        return .call name [] (token.span.through close)
      else
        let arguments ← commaSeparated expression bound
        let close ← expectMark .closeParen
        return .call name arguments (token.span.through close)
    else
      return .name name token.span
  | .mark .openParen =>
    let _ ← take
    let inner ← expression
    let _ ← expectMark .closeParen
    return inner
  | other => fail (.expected .expression other)

def unaryOperatorOf? : Lexeme → Option UnaryOperator
  | .mark .minus => some .negate
  | .mark .bang => some .not
  | _ => none

/-- Reads an operand: a unary operator before `nested`, or else `base`. -/
def operand (nested base : Parser Expression) : Parser Expression := do
  let token ← current
  match unaryOperatorOf? token.lexeme with
  | none => base
  | some operator =>
    let _ ← take
    let inner ← nested
    return .unary operator inner (token.span.through inner.span)

/-- Reads operators over `operand`; an assignment takes `nested` on its right. -/
def assignment (bound : Nat) (operand nested : Parser Expression) : Parser Expression := do
  let target ← binaryLevels bound operand operatorLevels
  if ← accept (.mark .assign) then
    let value ← nested
    return .assign target value (target.span.through value.span)
  else
    return target

mutual

/-- Reads an expression in which `allowance` more levels may nest. -/
def expression (bound : Nat) : (allowance : Nat) → Parser Expression
  | 0 => fun tokens => tooDeep tokens
  | allowance + 1 => fun tokens =>
    assignment bound (unary bound allowance) (expression bound allowance) tokens

/-- Reads an operand in which `allowance` more levels may nest. -/
def unary (bound : Nat) : (allowance : Nat) → Parser Expression
  | 0 => fun tokens => operand tooDeep (primary bound tooDeep) tokens
  | allowance + 1 => fun tokens =>
    operand (unary bound allowance)
      (primary bound
        (assignment bound (unary bound allowance) (expression bound allowance))) tokens

end

/-! ## Statements -/

/-- Reads an initial value if `=` stands here. -/
def initialValue? (expression : Parser Expression) : Parser (Option Expression) := do
  if ← accept (.mark .assign) then
    return some (← expression)
  else
    return none

/-- Reads statements up to the brace that closes their block. -/
def statementsToClose (statement : Parser Statement) : (bound : Nat) → Parser (List Statement)
  | 0 => fun _ => .error .incomplete
  | bound + 1 => do
    if ← accept (.mark .closeBrace) then
      return []
    else
      let head ← statement
      return head :: (← statementsToClose statement bound)

/-- Reads statements between braces. -/
def block (bound : Nat) (statement : Parser Statement) : Parser (List Statement) := do
  let _ ← expectMark .openBrace
  statementsToClose statement bound

/-- The statements of a branch or loop body: those of a block, or the one. -/
def branchBody : Statement → List Statement
  | .block body => body
  | other => [other]

/-- Reads a condition in parentheses. -/
def condition (expression : Parser Expression) : Parser Expression := do
  let _ ← expectMark .openParen
  let value ← expression
  let _ ← expectMark .closeParen
  return value

/-- Reads a statement whose parts are read by `expression` and `nested`. -/
def statementOf (bound : Nat) (expression : Parser Expression) (nested : Parser Statement) :
    Parser Statement := do
  let token ← current
  let declaration := fun (type : TypeName) => show Parser Statement from do
    let _ ← take
    let (name, _) ← identifier
    let initial ← initialValue? expression
    let close ← expectMark .semicolon
    return .declare type name initial (token.span.through close)
  match token.lexeme with
  | .keyword .intType => declaration .int
  | .keyword .voidType => declaration .void
  | .keyword .autoType | .keyword .externWord => fail .unsupportedLocal
  | .keyword .ifWord =>
    let _ ← take
    let test ← condition expression
    let whenTrue ← nested
    if ← accept (.keyword .elseWord) then
      let whenFalse ← nested
      return .choose test (branchBody whenTrue) (branchBody whenFalse)
    else
      return .choose test (branchBody whenTrue) []
  | .keyword .whileWord =>
    let _ ← take
    let test ← condition expression
    let body ← nested
    return .loop test (branchBody body)
  | .keyword .returnWord =>
    let _ ← take
    if (← currentLexeme) = .mark .semicolon then
      let close ← expectMark .semicolon
      return .leave none (token.span.through close)
    else
      let value ← expression
      let close ← expectMark .semicolon
      return .leave (some value) (token.span.through close)
  | .mark .openBrace => return .block (← block bound nested)
  | .mark .semicolon =>
    let _ ← take
    return .empty
  | _ =>
    let value ← expression
    let _ ← expectMark .semicolon
    return .evaluate value

/-- Reads a statement in which `allowance` more levels may nest. -/
def statement (bound : Nat) : (allowance : Nat) → Parser Statement
  | 0 => fun tokens => tooDeep tokens
  | allowance + 1 => fun tokens =>
    statementOf bound (expression bound allowance) (statement bound allowance) tokens

/-! ## Items -/

/-- Whether an empty parameter list written `void)` stands here. -/
def atVoidParameters : Parser Bool := fun tokens =>
  match tokens with
  | ⟨.keyword .voidType, _⟩ :: ⟨.mark .closeParen, _⟩ :: _ => .ok (true, tokens)
  | _ => .ok (false, tokens)

/-- Reads one or more parameters separated by commas. -/
def parameterList : (bound : Nat) → Parser (List Parameter)
  | 0 => pure []
  | bound + 1 => do
    let start ← currentSpan
    match (← typeName?) with
    | none => fail .expectedParameterType
    | some type =>
      let (name, stop) ← identifier
      let parameter : Parameter := ⟨type, name, start.through stop⟩
      if ← accept (.mark .comma) then
        return parameter :: (← parameterList bound)
      else
        return [parameter]

/-- Reads a parameter list behind its opening parenthesis. -/
def parameters (bound : Nat) : Parser (List Parameter) := do
  if ← accept (.mark .closeParen) then
    return []
  else if ← atVoidParameters then
    let _ ← take
    let _ ← take
    return []
  else
    let list ← parameterList bound
    let _ ← expectMark .closeParen
    return list

/-- Reads the rest of a function behind its name and opening parenthesis. The span
of a function ends at the brace that opens its body. -/
def functionRest (bound : Nat) (returns : TypeName) (name : String) (isExternal : Bool)
    (start : Span) : Parser Item := do
  let list ← parameters bound
  let token ← current
  if token.lexeme = .mark .openBrace then
    if isExternal then
      fail .externalBody
    else
      let body ← block bound (statement bound nestingLimit)
      return .function returns name list (some body) isExternal (start.through token.span)
  else
    let close ← expect .semicolon .semicolonOrBody
    return .function returns name list none isExternal (start.through close)

/-- Reads one top-level declaration. -/
def item (bound : Nat) : Parser Item := do
  let start ← currentSpan
  let isExternal ← accept (.keyword .externWord)
  match (← typeName?) with
  | none => fail .expectedDeclaration
  | some type =>
    let (name, _) ← identifier
    if ← accept (.mark .openParen) then
      functionRest bound type name isExternal start
    else if isExternal then
      reject (.externalVariable name) start
    else
      let initial ← initialValue? (expression bound nestingLimit)
      let close ← expectMark .semicolon
      return .variable type name initial (start.through close)

/-- Reads items up to the end of input. -/
def items (limit : Nat) : (bound : Nat) → Parser (List Item)
  | 0 => pure []
  | bound + 1 => do
    if (← currentLexeme) = .endOfInput then
      return []
    else
      let head ← item limit
      return head :: (← items limit bound)

end Parser

/-- The program that `tokens` spell. -/
def programOfTokens (tokens : List Token) : Except SourceError (List Item) :=
  match Parser.items tokens.length tokens.length tokens with
  | .error problem => .error problem
  | .ok (program, _) => .ok program

/-- The program that a text holds, or why it holds none. -/
def parseProgram (text : String) : Except SourceError (List Item) :=
  match tokenize text with
  | .error problem => .error problem
  | .ok tokens => programOfTokens tokens

end IncrementalC.Syntax
