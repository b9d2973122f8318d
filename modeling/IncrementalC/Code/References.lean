import IncrementalC.Code.Unit
import IncrementalC.Text.NameSet

/-!
Contract: the names that lowered code uses.

Owns:
- the names in an expression, a statement list or an initializer;
- those names as a set in ascending order.

Does not own: what a name is bound to.
-/

namespace IncrementalC.Code

mutual

/-- The names in an expression, in the order of writing. -/
def Expression.names : Expression → List String
  | .integer _ | .slot _ => []
  | .global name => [name]
  | .assignSlot _ value => value.names
  | .assignGlobal name value => name :: value.names
  | .call callee arguments => callee :: Expression.listNames arguments
  | .atExit function argument => function :: argument.names
  | .unary _ operand => operand.names
  | .binary _ left right | .and left right | .or left right => left.names ++ right.names

def Expression.listNames : List Expression → List String
  | [] => []
  | head :: tail => head.names ++ Expression.listNames tail

end

mutual

def Statement.names : Statement → List String
  | .evaluate value | .store _ value => value.names
  | .choose condition whenTrue whenFalse =>
    condition.names ++ Statement.listNames whenTrue ++ Statement.listNames whenFalse
  | .loop condition body => condition.names ++ Statement.listNames body
  | .leave (some value) => value.names
  | .leave none => []

def Statement.listNames : List Statement → List String
  | [] => []
  | head :: tail => head.names ++ Statement.listNames tail

end

/-- The names that a function uses. -/
def Function.references (function : Function) : NameSet :=
  .ofNames (Statement.listNames function.body)

/-- The names that an initializer uses, its variable included. -/
def Initializer.references (initializer : Initializer) : NameSet :=
  .ofNames (initializer.global :: initializer.value.names)

end IncrementalC.Code

namespace IncrementalC

/-- The names that a unit uses and does not define. -/
def CodeUnit.references (unit : CodeUnit) : NameSet :=
  .ofNames
    ((unit.functions.flatMap Code.Function.references ++
        unit.initializers.flatMap Code.Initializer.references).filter
      fun name => name ∉ unit.definedNames)

end IncrementalC
