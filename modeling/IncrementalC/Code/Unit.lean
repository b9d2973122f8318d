import IncrementalC.Operator
import IncrementalC.Transaction.Basic

/-!
Contract: lowered code.

In lowered code every local variable is a numbered slot of its function's frame, and
everything else is named and found when it is used.

Owns:
- lowered expressions and statements;
- functions, global variables and their initializers;
- the unit of code of one transaction.

Does not own: how a unit is made from source text, or how it runs.
-/

namespace IncrementalC.Code

/-- Lowered expressions. -/
inductive Expression where
  | integer (value : Int64)
  | slot (slot : Nat)
  | global (name : String)
  | assignSlot (slot : Nat) (value : Expression)
  | assignGlobal (name : String) (value : Expression)
  | call (callee : String) (arguments : List Expression)
  /-- Registers a call of `function` for the time its owner goes away. -/
  | atExit (function : String) (argument : Expression)
  | unary (operator : UnaryOperator) (operand : Expression)
  | binary (operator : StrictOperator) (left right : Expression)
  | and (left right : Expression)
  | or (left right : Expression)
deriving Repr

/-- Lowered statements. -/
inductive Statement where
  | evaluate (value : Expression)
  | store (slot : Nat) (value : Expression)
  | choose (condition : Expression) (whenTrue whenFalse : List Statement)
  | loop (condition : Expression) (body : List Statement)
  | leave (value : Option Expression)
deriving Repr

/-- A function. Its parameters take the first slots of its frame. -/
structure Function where
  name : String
  declaration : DeclarationId
  parameters : Nat
  frameSize : Nat
  returnsValue : Bool
  body : List Statement
deriving Repr

/-- A global variable; without a constant it starts as zero. -/
structure Global where
  name : String
  declaration : DeclarationId
  constant : Option Int64
deriving DecidableEq, Repr

/-- Code that computes the first value of a global variable. -/
structure Initializer where
  global : String
  declaration : DeclarationId
  value : Expression
deriving Repr

end Code

/-- The code of one transaction. Initializers stand in the order of declaration. -/
structure CodeUnit where
  transaction : Option TransactionId
  functions : List Code.Function
  globals : List Code.Global
  initializers : List Code.Initializer
deriving Repr

namespace CodeUnit

/-- A unit without code. -/
def empty (transaction : Option TransactionId) : CodeUnit := ⟨transaction, [], [], []⟩

/-- Whether a unit defines nothing. -/
def isEmpty (unit : CodeUnit) : Bool := unit.functions.isEmpty && unit.globals.isEmpty

/-- The names that a unit defines: its global variables, then its functions. -/
def definedNames (unit : CodeUnit) : List String :=
  unit.globals.map Code.Global.name ++ unit.functions.map Code.Function.name

end CodeUnit

end IncrementalC
