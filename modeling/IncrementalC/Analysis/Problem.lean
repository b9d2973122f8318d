import IncrementalC.Diagnostic

/-!
Contract: what checking a program can report.

Owns: the problems of the checking stage, their kinds and their wording.

Does not own: when a problem arises.
-/

namespace IncrementalC.Analysis

/-- What can be wrong, or doubtful, about a program that is well formed. -/
inductive Problem where
  | voidVariable (name : String)
  | autoVariable (name : String)
  | voidParameter (name : String)
  | redefinition (name : String)
  | variableHidesFunction (name : String)
  | localRedefinition (name : String)
  | duplicateParameter (name : String)
  | deducedPrototype (name : String)
  | functionHidesVariable (name : String)
  | conflictingTypes (name : String)
  | missingReturn (name : String)
  | shadowedGlobal (name : String)
  | voidValue
  | unusedComparison
  | unusedValue
  | returnNeedsValue
  | returnTakesNoValue
  | functionAsValue (name : String)
  | notAVariable
  | assignedFunction (name : String)
  | undeclared (name : String)
  | notAFunction (name : String)
  | wrongArity (name : String) (expected supplied : Nat)
  | atExitArity
  | atExitTarget
  | atExitSignature (name : String)
deriving DecidableEq, Repr

namespace Problem

/-- The kind of report for a problem. -/
def code : Problem → DiagnosticCode
  | .voidVariable _ | .voidParameter _ => .voidVariable
  | .autoVariable _ | .deducedPrototype _ | .voidValue | .functionAsValue _
  | .atExitTarget | .atExitSignature _ => .typeMismatch
  | .redefinition _ | .localRedefinition _ | .duplicateParameter _ => .redefinition
  | .variableHidesFunction _ | .functionHidesVariable _ | .conflictingTypes _ =>
    .conflictingDeclaration
  | .missingReturn _ => .missingReturn
  | .shadowedGlobal _ => .shadowedGlobal
  | .unusedComparison => .unusedComparison
  | .unusedValue => .unusedValue
  | .returnNeedsValue | .returnTakesNoValue => .invalidReturn
  | .notAVariable | .assignedFunction _ => .notAssignable
  | .undeclared _ => .undeclaredIdentifier
  | .notAFunction _ => .notCallable
  | .wrongArity _ _ _ | .atExitArity => .arityMismatch

/-- The wording of a problem. -/
def message : Problem → String
  | .voidVariable name => "variable `" ++ name ++ "` declared void"
  | .autoVariable name => "`auto` is only allowed as a return type (`" ++ name ++ "`)"
  | .voidParameter name => "parameter `" ++ name ++ "` must be `int`"
  | .redefinition name | .variableHidesFunction name => "redefinition of `" ++ name ++ "`"
  | .localRedefinition name => "redefinition of local `" ++ name ++ "`"
  | .duplicateParameter name => "duplicate parameter `" ++ name ++ "`"
  | .deducedPrototype name => "`" ++ name ++ "` with deduced return type needs a body"
  | .functionHidesVariable name =>
    "`" ++ name ++ "` redeclared as a different kind of symbol"
  | .conflictingTypes name => "conflicting types for `" ++ name ++ "`"
  | .missingReturn name =>
    "control may reach the end of non-void function `" ++ name ++ "`"
  | .shadowedGlobal name => "local `" ++ name ++ "` shadows a global declaration"
  | .voidValue => "void value used where an `int` is required"
  | .unusedComparison => "comparison result unused"
  | .unusedValue => "expression result unused"
  | .returnNeedsValue => "non-void function must return a value"
  | .returnTakesNoValue => "void function cannot return a value"
  | .functionAsValue name => "function `" ++ name ++ "` used as a value"
  | .notAVariable => "left side of assignment is not a variable"
  | .assignedFunction name => "cannot assign to function `" ++ name ++ "`"
  | .undeclared name => "use of undeclared identifier `" ++ name ++ "`"
  | .notAFunction name => "`" ++ name ++ "` is not a function"
  | .wrongArity name expected supplied =>
    "`" ++ name ++ "` takes " ++ toString expected ++ " argument(s) but " ++
      toString supplied ++ " were supplied"
  | .atExitArity => "`atexit` takes a function and an optional argument"
  | .atExitTarget => "`atexit` expects a function name"
  | .atExitSignature name => "`" ++ name ++ "` cannot be registered with `atexit`"

def reportAt (problem : Problem) (span : Span) : Diagnostic :=
  ⟨problem.code, problem.message, span⟩

end Problem

/-- A result together with what was reported on the way to it. -/
structure Checked (α : Type) where
  value : α
  reports : List Diagnostic

namespace Checked

instance : Monad Checked where
  pure value := ⟨value, []⟩
  bind checked next :=
    let following := next checked.value
    ⟨following.value, checked.reports ++ following.reports⟩

def report (problem : Problem) (span : Span) : Checked Unit :=
  ⟨(), [problem.reportAt span]⟩

def reportIf (condition : Bool) (problem : Problem) (span : Span) : Checked Unit :=
  if condition then report problem span else pure ()

@[simp] theorem value_pure {α : Type} (value : α) : (pure value : Checked α).value = value := rfl

@[simp] theorem reports_pure {α : Type} (value : α) : (pure value : Checked α).reports = [] := rfl

@[simp] theorem value_bind {α β : Type} (checked : Checked α) (next : α → Checked β) :
    (checked >>= next).value = (next checked.value).value := rfl

@[simp] theorem reports_bind {α β : Type} (checked : Checked α) (next : α → Checked β) :
    (checked >>= next).reports = checked.reports ++ (next checked.value).reports := rfl

end Checked

end IncrementalC.Analysis
