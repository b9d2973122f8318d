import IncrementalC.Operator
import IncrementalC.Source.Position

/-!
Contract: programs as trees.

Owns:
- the names of types, expressions, statements and top-level items;
- the span that an expression covers.

Does not own: how a tree is read from tokens, or what a tree means.
-/

namespace IncrementalC.Syntax

/-- The types that a declaration can name. -/
inductive TypeName where
  | int
  | void
  | auto
deriving DecidableEq, Repr

/-- Operators with two operands, loosest first: the two that may leave their right
operand alone, and the strict ones. -/
inductive BinaryOperator where
  | or
  | and
  | strict (operator : StrictOperator)
deriving DecidableEq, Repr

def BinaryOperator.isComparison : BinaryOperator → Bool
  | .strict operator => operator.isComparison
  | .or | .and => false

/-- Expressions, each with the text it covers. -/
inductive Expression where
  | integer (value : Int64) (span : Span)
  | name (identifier : String) (span : Span)
  | assign (target value : Expression) (span : Span)
  | call (callee : String) (arguments : List Expression) (span : Span)
  | unary (operator : UnaryOperator) (operand : Expression) (span : Span)
  | binary (operator : BinaryOperator) (left right : Expression) (span : Span)
deriving Repr

/-- The text that an expression covers. Parentheses around an expression are not
part of it. -/
def Expression.span : Expression → Span
  | .integer _ span | .name _ span | .assign _ _ span | .call _ _ span
  | .unary _ _ span | .binary _ _ _ span => span

/-- Statements of a function body. -/
inductive Statement where
  | declare (type : TypeName) (name : String) (initial : Option Expression) (span : Span)
  | evaluate (value : Expression)
  | choose (condition : Expression) (whenTrue whenFalse : List Statement)
  | loop (condition : Expression) (body : List Statement)
  | leave (value : Option Expression) (span : Span)
  | block (body : List Statement)
  | empty
deriving Repr

/-- A parameter of a function. -/
structure Parameter where
  type : TypeName
  name : String
  span : Span
deriving DecidableEq, Repr

/-- Top-level declarations. A function without a body is a prototype. -/
inductive Item where
  | variable (type : TypeName) (name : String) (initial : Option Expression) (span : Span)
  | function (returns : TypeName) (name : String) (parameters : List Parameter)
      (body : Option (List Statement)) (isExternal : Bool) (span : Span)
deriving Repr

/-- The name that an item declares. -/
def Item.name : Item → String
  | .variable _ name _ _ => name
  | .function _ name _ _ _ _ => name

end IncrementalC.Syntax
