import IncrementalC.Source.LineWindow

/-!
Contract: what the compiler reports about a text.

Owns:
- the kinds of report, their numbers and how serious they are;
- when a report stops compilation;
- the written form `severity[number]: message at line:column`.

Does not own: the wording of messages, which stands with the stage that reports.
-/

namespace IncrementalC

/-- How serious a report is. -/
inductive Severity where
  | error
  | warning
deriving DecidableEq, Repr

/-- The written form of a severity. -/
def Severity.render : Severity → String
  | .error => "error"
  | .warning => "warning"

/-- What a report is about. -/
inductive DiagnosticCode where
  | invalidCharacter
  | invalidLiteral
  | unexpectedToken
  | nestingTooDeep
  | undeclaredIdentifier
  | redefinition
  | conflictingDeclaration
  | typeMismatch
  | arityMismatch
  | notCallable
  | notAssignable
  | voidVariable
  | invalidReturn
  | unusedValue
  | unusedComparison
  | missingReturn
  | shadowedGlobal
deriving DecidableEq, Repr

namespace DiagnosticCode

/-- Every kind of report. -/
def all : List DiagnosticCode :=
  [ .invalidCharacter, .invalidLiteral, .unexpectedToken, .nestingTooDeep,
    .undeclaredIdentifier, .redefinition, .conflictingDeclaration, .typeMismatch,
    .arityMismatch, .notCallable, .notAssignable, .voidVariable, .invalidReturn,
    .unusedValue, .unusedComparison, .missingReturn, .shadowedGlobal ]

/-- The number of a report: `E` for errors and `W` for warnings, then a group digit
pair and a counter. -/
def number : DiagnosticCode → String
  | .invalidCharacter => "E0001"
  | .invalidLiteral => "E0002"
  | .unexpectedToken => "E0003"
  | .nestingTooDeep => "E0004"
  | .undeclaredIdentifier => "E0101"
  | .redefinition => "E0102"
  | .conflictingDeclaration => "E0103"
  | .typeMismatch => "E0201"
  | .arityMismatch => "E0202"
  | .notCallable => "E0203"
  | .notAssignable => "E0204"
  | .voidVariable => "E0205"
  | .invalidReturn => "E0206"
  | .unusedValue => "W0001"
  | .unusedComparison => "W0002"
  | .missingReturn => "W0003"
  | .shadowedGlobal => "W0004"

/-- Four kinds are warnings; all others are errors. -/
def severity : DiagnosticCode → Severity
  | .unusedValue | .unusedComparison | .missingReturn | .shadowedGlobal => .warning
  | _ => .error

/-- Input typed at a prompt often leaves a value unused; such reports are dropped. -/
def isBenign : DiagnosticCode → Bool
  | .unusedValue | .unusedComparison => true
  | _ => false

end DiagnosticCode

/-- One report: its kind, its wording and the text it is about. -/
structure Diagnostic where
  code : DiagnosticCode
  message : String
  span : Span
deriving DecidableEq, Repr

namespace Diagnostic

/-- The severity is that of the kind. -/
def severity (diagnostic : Diagnostic) : Severity := diagnostic.code.severity

/-- Whether the report is an error. -/
def isError (diagnostic : Diagnostic) : Bool := diagnostic.severity = .error

/-- Whether the report is of a kind that is dropped. -/
def isBenign (diagnostic : Diagnostic) : Bool := diagnostic.code.isBenign

/-- Whether the report stops compilation: an error always does, a warning that is
not benign does when warnings are fatal. -/
def isFatal (diagnostic : Diagnostic) (fatalWarnings : Bool) : Bool :=
  !diagnostic.isBenign && (diagnostic.isError || fatalWarnings)

/-- The report about the user's own text behind `window`. -/
def remap (diagnostic : Diagnostic) (window : LineWindow) : Diagnostic :=
  { diagnostic with span := window.mapSpan diagnostic.span }

/-- The written form of a report. -/
def render (diagnostic : Diagnostic) : String :=
  diagnostic.severity.render ++ "[" ++ diagnostic.code.number ++ "]: " ++
    diagnostic.message ++ " at " ++ diagnostic.span.render

end Diagnostic

end IncrementalC
