import IncrementalC.Transaction.Basic

/-!
Contract: how generating and running code can fail.

A fault is an outcome of the program that runs. A breakdown is none: it means that
the system itself was used against its rules, or cannot go on.

Owns: faults, errors of code generation, breakdowns, and their wording.

Does not own: when they arise.
-/

namespace IncrementalC

/-- How running code can fail. -/
inductive Fault where
  /-- Nothing defines the name. -/
  | unresolved (name : String)
  /-- A foreign function cannot be called with so many arguments. -/
  | nativeArity (name : String) (arity : Nat)
  | divisionByZero
  /-- One call more than the limit allows was active. -/
  | stackOverflow (depth : Nat)
deriving DecidableEq, Repr

/-- The wording of a fault. -/
def Fault.message : Fault → String
  | .unresolved name => "unresolved symbol `" ++ name ++ "`"
  | .nativeArity name arity =>
    "native function `" ++ name ++ "` cannot take " ++ toString arity ++ " arguments"
  | .divisionByZero => "division by zero"
  | .stackOverflow depth => "call depth " ++ toString depth ++ " exceeded"

/-- Why no code is generated for a unit. -/
inductive GenerationError where
  | duplicateSymbol (name : String)
  | frameTooLarge (name : String) (slots limit : Nat)
deriving DecidableEq, Repr

/-- The wording of an error of code generation. -/
def GenerationError.message : GenerationError → String
  | .duplicateSymbol name => "symbol `" ++ name ++ "` is already defined by a live module"
  | .frameTooLarge name slots limit =>
    "function `" ++ name ++ "` needs " ++ toString slots ++ " frame slots, limit is " ++
      toString limit

/-- Why the system cannot go on. -/
inductive Breakdown where
  | misuse (cause : Misuse)
  /-- Code uses a slot outside its frame. -/
  | slotOutsideFrame (slot size : Nat)
  /-- A loop has run for more rounds than any run is given. -/
  | endlessLoop
deriving DecidableEq, Repr

/-- The wording of a breakdown. -/
def Breakdown.message : Breakdown → String
  | .misuse cause => cause.message
  | .slotOutsideFrame slot size =>
    "index out of bounds: the len is " ++ toString size ++ " but the index is " ++ toString slot
  | .endlessLoop => "a loop does not end"

/-- What stops running code before its end. -/
inductive Stop where
  | fault (cause : Fault)
  | breakdown (cause : Breakdown)
deriving DecidableEq, Repr

end IncrementalC
