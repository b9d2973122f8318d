import IncrementalC.Analysis.Problem
import IncrementalC.Analysis.Scope
import IncrementalC.Code.Unit
import IncrementalC.Syntax.Tree

/-!
Contract: checking and lowering the bodies of functions.

Checking and lowering are one pass. A part that is in error is lowered to the
constant zero, or as if the error were not there, so that the pass can report what
follows it.

Owns:
- expressions, with the kind of value each yields;
- statements, with the scope each leaves behind;
- which statement lists always return.

Does not own: top-level declarations, or the table that names are looked up in.
-/

namespace IncrementalC.Analysis

open Syntax (Expression Statement)

/-- The name under which at-exit calls are registered, unless a program declares it. -/
def atExitName : String := "atexit"

/-- Reports a value of kind void where an integer is needed. -/
def requireInt (kind : ReturnKind) (span : Span) : Checked Unit :=
  .reportIf (kind = .void) .voidValue span

/-- What an expression in error is lowered to. -/
def zero : ReturnKind × Code.Expression := (.int, .integer 0)

/-- The lowered form of a unary operator; a negated constant is a constant. -/
def lowerUnary : UnaryOperator → Code.Expression → Code.Expression
  | .negate, .integer value => .integer (-value)
  | operator, operand => .unary operator operand

def lowerBinary : Syntax.BinaryOperator → Code.Expression → Code.Expression → Code.Expression
  | .or, left, right => .or left right
  | .and, left, right => .and left right
  | .strict operator, left, right => .binary operator left right

/-- What a name denotes as a value. -/
def lowerName (table : DeclarationTable) (frames : Frames) (name : String) (span : Span) :
    Checked (ReturnKind × Code.Expression) :=
  match frames.slot? name with
  | some slot => pure (.int, .slot slot)
  | none =>
    match (table.lookup name).map DeclarationRecord.kind with
    | some .variable => pure (.int, .global name)
    | some (.function _ _ _) => do
      .report (.functionAsValue name) span
      return zero
    | none => do
      .report (.undeclared name) span
      return zero

/-- Assigning a lowered value to a target. -/
def lowerAssignment (table : DeclarationTable) (frames : Frames) (target : Expression)
    (value : Code.Expression) : Checked (ReturnKind × Code.Expression) :=
  match target with
  | .name name span =>
    match frames.slot? name with
    | some slot => pure (.int, .assignSlot slot value)
    | none =>
      match (table.lookup name).map DeclarationRecord.kind with
      | some .variable => pure (.int, .assignGlobal name value)
      | some (.function _ _ _) => do
        .report (.assignedFunction name) span
        return zero
      | none => do
        .report (.undeclared name) span
        return zero
  | other => do
    .report .notAVariable other.span
    return zero

/-- The function that an at-exit registration names, if it can be registered. -/
def atExitFunction? (table : DeclarationTable) (target : Expression) : Checked (Option String) :=
  match target with
  | .name name span =>
    match (table.lookup name).map DeclarationRecord.kind with
    | some (.function arity _ _) =>
      if arity ≤ 1 then
        pure (some name)
      else do
        .report (.atExitSignature name) span
        return none
    | some .variable => do
      .report (.atExitSignature name) span
      return none
    | none => do
      .report (.undeclared name) span
      return none
  | other => do
    .report .atExitTarget other.span
    return none

/-- How a call has to be lowered. -/
inductive Callee where
  | function (arity : Nat) (returns : ReturnKind)
  | atExit
  | refused (problem : Problem)
deriving DecidableEq, Repr

/-- What is called under a name. -/
def resolveCallee (table : DeclarationTable) (frames : Frames) (name : String) : Callee :=
  if (frames.slot? name).isSome then
    .refused (.notAFunction name)
  else
    match (table.lookup name).map DeclarationRecord.kind with
    | some (.function arity returns _) => .function arity returns
    | some .variable => .refused (.notAFunction name)
    | none => if name = atExitName then .atExit else .refused (.undeclared name)

mutual

/-- Checks and lowers an expression. -/
def lowerExpression (table : DeclarationTable) (frames : Frames) :
    Expression → Checked (ReturnKind × Code.Expression)
  | .integer value _ => pure (.int, .integer value)
  | .name name span => lowerName table frames name span
  | .assign target value span => do
    let lowered ← lowerExpression table frames value
    requireInt lowered.1 span
    lowerAssignment table frames target lowered.2
  | .call callee arguments span =>
    match resolveCallee table frames callee with
    | .refused problem => do
      .report problem span
      return zero
    | .function arity returns => do
      .reportIf (arity ≠ arguments.length) (.wrongArity callee arity arguments.length) span
      let lowered ← lowerArguments table frames arguments
      return (returns, .call callee lowered)
    | .atExit =>
      match arguments with
      | target :: rest =>
        if rest.length ≤ 1 then do
          match (← atExitFunction? table target) with
          | none => return zero
          | some function =>
            let lowered ← lowerArguments table frames rest
            return (.int, .atExit function (lowered.headD (.integer 0)))
        else do
          .report .atExitArity span
          return zero
      | [] => do
        .report .atExitArity span
        return zero
  | .unary operator operand span => do
    let lowered ← lowerExpression table frames operand
    requireInt lowered.1 span
    return (.int, lowerUnary operator lowered.2)
  | .binary operator left right span => do
    let loweredLeft ← lowerExpression table frames left
    let loweredRight ← lowerExpression table frames right
    requireInt loweredLeft.1 span
    requireInt loweredRight.1 span
    return (.int, lowerBinary operator loweredLeft.2 loweredRight.2)

/-- Checks and lowers the arguments of a call, each of which has to be an integer. -/
def lowerArguments (table : DeclarationTable) (frames : Frames) :
    List Expression → Checked (List Code.Expression)
  | [] => pure []
  | argument :: rest => do
    let lowered ← lowerExpression table frames argument
    requireInt lowered.1 argument.span
    return lowered.2 :: (← lowerArguments table frames rest)

end

/-- Checks and lowers an expression that has to be an integer. -/
def lowerInt (table : DeclarationTable) (frames : Frames) (expression : Expression) :
    Checked Code.Expression := do
  let lowered ← lowerExpression table frames expression
  requireInt lowered.1 expression.span
  return lowered.2

/-! ## Statements -/

/-- Reports a local name that a global declaration has as well. -/
def warnShadowing (table : DeclarationTable) (name : String) (span : Span) : Checked Unit :=
  .reportIf (table.lookup name).isSome (.shadowedGlobal name) span

/-- Reports an expression statement whose value goes unused. -/
def warnUnused : Expression → Checked Unit
  | .binary operator _ _ span =>
    .report (if operator.isComparison then .unusedComparison else .unusedValue) span
  | .integer _ span | .name _ span | .unary _ _ span => .report .unusedValue span
  | .assign _ _ _ | .call _ _ _ => pure ()

/-- Checks and lowers the value of a return statement. The first return of an `auto`
function decides what it returns. -/
def lowerReturn (table : DeclarationTable) (scope : Scope) (value : Option Expression)
    (span : Span) : Checked (Code.Statement × Scope) := do
  let lowered ← match value with
    | none => pure none
    | some value => some <$> lowerExpression table scope.frames value
  let found := match lowered with
    | some (.int, _) => ReturnKind.int
    | _ => .void
  let statement := Code.Statement.leave (lowered.map Prod.snd)
  match scope.returns with
  | none => return (statement, { scope with returns := some found })
  | some .int =>
    .reportIf (found = .void) .returnNeedsValue span
    return (statement, scope)
  | some .void =>
    .reportIf (found = .int) .returnTakesNoValue span
    return (statement, scope)

/-- Checks and lowers the declaration of a local variable. The variable is bound
after its initial value is lowered. -/
def lowerLocal (table : DeclarationTable) (scope : Scope) (type : Syntax.TypeName)
    (name : String) (initial : Option Expression) (span : Span) :
    Checked (Code.Statement × Scope) := do
  .reportIf (type ≠ .int) (.voidVariable name) span
  .reportIf (scope.declaredHere name) (.localRedefinition name) span
  let value ← match initial with
    | none => pure (.integer 0)
    | some initial => lowerInt table scope.frames initial
  warnShadowing table name span
  let (slot, bound) := scope.bind name
  return (.store slot value, bound)

mutual

/-- Checks and lowers a statement. A block becomes its statements, as its variables
have slots of their own. -/
def lowerStatement (table : DeclarationTable) (scope : Scope) :
    Statement → Checked (List Code.Statement × Scope)
  | .declare type name initial span => do
    let (statement, after) ← lowerLocal table scope type name initial span
    return ([statement], after)
  | .evaluate value => do
    warnUnused value
    let lowered ← lowerExpression table scope.frames value
    return ([.evaluate lowered.2], scope)
  | .choose condition whenTrue whenFalse => do
    let test ← lowerInt table scope.frames condition
    let (loweredTrue, afterTrue) ← lowerBlock table scope.enter whenTrue
    let between := afterTrue.leaveTo scope
    let (loweredFalse, afterFalse) ← lowerBlock table between.enter whenFalse
    return ([.choose test loweredTrue loweredFalse], afterFalse.leaveTo between)
  | .loop condition body => do
    let test ← lowerInt table scope.frames condition
    let (lowered, after) ← lowerBlock table scope.enter body
    return ([.loop test lowered], after.leaveTo scope)
  | .leave value span => do
    let (statement, after) ← lowerReturn table scope value span
    return ([statement], after)
  | .block body => do
    let (lowered, after) ← lowerBlock table scope.enter body
    return (lowered, after.leaveTo scope)
  | .empty => pure ([], scope)

/-- Checks and lowers the statements of a block whose frame is open. -/
def lowerBlock (table : DeclarationTable) (scope : Scope) :
    List Statement → Checked (List Code.Statement × Scope)
  | [] => pure ([], scope)
  | head :: tail => do
    let (loweredHead, afterHead) ← lowerStatement table scope head
    let (loweredTail, afterTail) ← lowerBlock table afterHead tail
    return (loweredHead ++ loweredTail, afterTail)

end

mutual

/-- Whether every way through a statement ends in a return. -/
def alwaysReturns : Statement → Bool
  | .leave _ _ => true
  | .choose _ whenTrue whenFalse => someAlwaysReturns whenTrue && someAlwaysReturns whenFalse
  | .block body => someAlwaysReturns body
  | .declare _ _ _ _ | .evaluate _ | .loop _ _ | .empty => false

/-- Whether some statement of a list returns on every way through it. -/
def someAlwaysReturns : List Statement → Bool
  | [] => false
  | head :: tail => alwaysReturns head || someAlwaysReturns tail

end

end IncrementalC.Analysis
