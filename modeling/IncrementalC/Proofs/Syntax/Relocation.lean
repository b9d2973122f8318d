import IncrementalC.Proofs.Syntax.Grammar
import IncrementalC.Proofs.Token.Relocation

/-!
Contract: the grammar does not look at places.

Tokens at moved places spell the same tree, whose places are moved in the same way.

Owns: trees with moved places, and the phrases that they are spelled by.

Does not own: how the tokens came to be moved.
-/

namespace IncrementalC.Syntax

open Syntax.Parser

/-! ## Trees -/

mutual

/-- The expression with every place in it moved. -/
def Expression.moved (move : Position → Position) : Expression → Expression
  | .integer value span => .integer value (span.moved move)
  | .name identifier span => .name identifier (span.moved move)
  | .assign target value span =>
    .assign (target.moved move) (value.moved move) (span.moved move)
  | .call callee arguments span =>
    .call callee (Expression.allMoved move arguments) (span.moved move)
  | .unary operator operand span => .unary operator (operand.moved move) (span.moved move)
  | .binary operator left right span =>
    .binary operator (left.moved move) (right.moved move) (span.moved move)

/-- Expressions with every place in them moved. -/
def Expression.allMoved (move : Position → Position) : List Expression → List Expression
  | [] => []
  | head :: tail => head.moved move :: Expression.allMoved move tail

end

mutual

/-- The statement with every place in it moved. -/
def Statement.moved (move : Position → Position) : Statement → Statement
  | .declare type name initial span =>
    .declare type name (initial.map (Expression.moved move)) (span.moved move)
  | .evaluate value => .evaluate (value.moved move)
  | .choose condition whenTrue whenFalse =>
    .choose (condition.moved move) (Statement.allMoved move whenTrue)
      (Statement.allMoved move whenFalse)
  | .loop condition body => .loop (condition.moved move) (Statement.allMoved move body)
  | .leave value span => .leave (value.map (Expression.moved move)) (span.moved move)
  | .block body => .block (Statement.allMoved move body)
  | .empty => .empty

/-- Statements with every place in them moved. -/
def Statement.allMoved (move : Position → Position) : List Statement → List Statement
  | [] => []
  | head :: tail => head.moved move :: Statement.allMoved move tail

end

section

variable {move : Position → Position}

theorem Expression.span_moved (expression : Expression) :
    (expression.moved move).span = expression.span.moved move := by
  cases expression <;> rfl

theorem Statement.allMoved_branchBody (branch : Statement) :
    Statement.allMoved move (branchBody branch) = branchBody (branch.moved move) := by
  cases branch <;> rfl

/-! ## Phrases -/

mutual

theorem SpellsExpression.moved {allowance : Nat} {tokens : List Token} {result : Expression} :
    SpellsExpression allowance tokens result →
      SpellsExpression allowance (tokens.map (Token.moved move)) (result.moved move)
  | .value operators => .value operators.moved
  | .assign assigned assigns => by
    rw [List.map_append, List.map_cons, Expression.moved, Span.moved_through,
      ← Expression.span_moved, ← Expression.span_moved]
    exact .assign assigned.moved assigns.moved

theorem SpellsOperators.moved {allowance : Nat} {levels : List OperatorLevel}
    {tokens : List Token} {result : Expression} :
    SpellsOperators allowance levels tokens result →
      SpellsOperators allowance levels (tokens.map (Token.moved move)) (result.moved move)
  | .operand single => .operand single.moved
  | .tighter operators => .tighter operators.moved
  | .apply first denotes second => by
    rw [List.map_append, List.map_cons, Expression.moved, Span.moved_through,
      ← Expression.span_moved, ← Expression.span_moved]
    exact .apply first.moved denotes second.moved

theorem SpellsOperand.moved {allowance : Nat} {tokens : List Token} {result : Expression} :
    SpellsOperand allowance tokens result →
      SpellsOperand allowance (tokens.map (Token.moved move)) (result.moved move)
  | .plain primary => .plain primary.moved
  | .negate operand => by
    rw [List.map_cons, Expression.moved, Span.moved_through, ← Expression.span_moved]
    exact .negate operand.moved
  | .not operand => by
    rw [List.map_cons, Expression.moved, Span.moved_through, ← Expression.span_moved]
    exact .not operand.moved

theorem SpellsPrimary.moved {allowance : Nat} {tokens : List Token} {result : Expression} :
    SpellsPrimary allowance tokens result →
      SpellsPrimary allowance (tokens.map (Token.moved move)) (result.moved move)
  | .integer => .integer
  | .name => .name
  | .call => .call
  | .callWith given => by
    rw [List.map_cons, List.map_cons, List.map_append, List.map_singleton]
    exact .callWith given.moved
  | .group expression => by
    rw [List.map_cons, List.map_append, List.map_singleton]
    exact .group expression.moved

theorem SpellsArguments.moved {allowance : Nat} {tokens : List Token}
    {values : List Expression} :
    SpellsArguments allowance tokens values →
      SpellsArguments allowance (tokens.map (Token.moved move)) (Expression.allMoved move values)
  | .last expression => .last expression.moved
  | .more expression rest => by
    rw [List.map_append, List.map_cons]
    exact .more expression.moved rest.moved

end

theorem SpellsInitial.moved {allowance : Nat} {tokens : List Token} {initial : Option Expression}
    (initialized : SpellsInitial allowance tokens initial) :
    SpellsInitial allowance (tokens.map (Token.moved move))
      (initial.map (Expression.moved move)) := by
  cases initialized with
  | none => exact .none
  | some expression => exact .some expression.moved

theorem SpellsCondition.moved {allowance : Nat} {tokens : List Token} {value : Expression}
    (condition : SpellsCondition allowance tokens value) :
    SpellsCondition allowance (tokens.map (Token.moved move)) (value.moved move) := by
  cases condition with
  | parentheses expression =>
    rw [List.map_cons, List.map_append, List.map_singleton]
    exact .parentheses expression.moved

mutual

theorem SpellsStatement.moved {allowance : Nat} {dangling : Bool} {tokens : List Token}
    {result : Statement} :
    SpellsStatement allowance dangling tokens result →
      SpellsStatement allowance dangling (tokens.map (Token.moved move)) (result.moved move)
  | .declare stated initialized => by
    rw [List.map_cons, List.map_cons, List.map_append, List.map_singleton]
    exact .declare stated initialized.moved
  | .evaluate expression => by
    rw [List.map_append, List.map_singleton]
    exact .evaluate expression.moved
  | .choose condition branch => by
    rw [List.map_cons, List.map_append, Statement.moved, Statement.allMoved_branchBody]
    exact .choose condition.moved branch.moved
  | .chooseElse condition branch other => by
    rw [List.map_cons, List.map_append, List.map_append, List.map_cons, Statement.moved,
      Statement.allMoved_branchBody, Statement.allMoved_branchBody]
    exact .chooseElse condition.moved branch.moved other.moved
  | .loop condition repeated => by
    rw [List.map_cons, List.map_append, Statement.moved, Statement.allMoved_branchBody]
    exact .loop condition.moved repeated.moved
  | .leave => .leave
  | .leaveWith expression => by
    rw [List.map_cons, List.map_append, List.map_singleton]
    exact .leaveWith expression.moved
  | .block statements => by
    rw [List.map_cons, List.map_append, List.map_singleton]
    exact .block statements.moved
  | .empty => .empty

/-- Tokens at moved places spell the same statements at moved places. -/
theorem SpellsStatements.moved {allowance : Nat} {tokens : List Token}
    {result : List Statement} :
    SpellsStatements allowance tokens result →
      SpellsStatements allowance (tokens.map (Token.moved move)) (Statement.allMoved move result)
  | .nil => .nil
  | .cons first rest => by
    rw [List.map_append]
    exact .cons first.moved rest.moved

end

end

/-! ## Statements in a row -/

theorem SpellsStatements.append {allowance : Nat} {tokens others : List Token}
    {before after : List Statement} (first : SpellsStatements allowance tokens before)
    (second : SpellsStatements allowance others after) :
    SpellsStatements allowance (tokens ++ others) (before ++ after) := by
  induction before generalizing tokens with
  | nil =>
    cases first
    exact second
  | cons head tail inductionHypothesis =>
    cases first with
    | cons spelled rest =>
      rw [List.append_assoc, List.cons_append]
      exact .cons spelled (inductionHypothesis rest)

end IncrementalC.Syntax
