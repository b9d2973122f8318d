/-!
Contract: the operators of the language.

Owns:
- the unary operators;
- the binary operators that evaluate both operands, and their short names;
- which of them compare.

Does not own: the two operators that may leave their right operand alone, which
source text and lowered code treat as forms of their own.
-/

namespace IncrementalC

inductive UnaryOperator where
  | negate
  | not
deriving DecidableEq, Repr

/-- Operators that evaluate both operands, left before right. -/
inductive StrictOperator where
  | add
  | subtract
  | multiply
  | divide
  | remainder
  | equal
  | notEqual
  | less
  | lessEqual
  | greater
  | greaterEqual
deriving DecidableEq, Repr

/-- The short name of an operator in listings of code. -/
def StrictOperator.mnemonic : StrictOperator → String
  | .add => "Add"
  | .subtract => "Sub"
  | .multiply => "Mul"
  | .divide => "Div"
  | .remainder => "Rem"
  | .equal => "Eq"
  | .notEqual => "Ne"
  | .less => "Lt"
  | .lessEqual => "Le"
  | .greater => "Gt"
  | .greaterEqual => "Ge"

/-- The operator of a short name. -/
def StrictOperator.ofMnemonic? (text : String) : Option StrictOperator :=
  [ add, subtract, multiply, divide, remainder, equal, notEqual, less, lessEqual, greater,
    greaterEqual ].find? fun operator => operator.mnemonic = text

def StrictOperator.isComparison : StrictOperator → Bool
  | .equal | .notEqual | .less | .lessEqual | .greater | .greaterEqual => true
  | .add | .subtract | .multiply | .divide | .remainder => false

end IncrementalC
