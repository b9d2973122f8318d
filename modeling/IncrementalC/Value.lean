/-!
Contract: the values that running code hands back.

Owns: values, their written form and their size.

Does not own: arithmetic on them.
-/

namespace IncrementalC

/-- The value of a call: an integer, or nothing. -/
inductive Value where
  | void
  | int (value : Int64)
deriving DecidableEq, Repr, Inhabited

namespace Value

/-- The integer, if the value is one. -/
def asInt? : Value → Option Int64
  | .void => none
  | .int value => some value

/-- The integer, or zero. -/
def asInt (value : Value) : Int64 := value.asInt?.getD 0

/-- Whether the value is nothing. -/
def isVoid : Value → Bool
  | .void => true
  | .int _ => false

def byteSize : Value → Nat
  | .void => 0
  | .int _ => 8

/-- The written form of a value: its type, then the number. -/
def render : Value → String
  | .void => "(void)"
  | .int value => "(int) " ++ toString value

end Value

end IncrementalC
