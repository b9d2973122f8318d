import IncrementalC.Analysis.Lowering

/-!
Contract: checking and lowering the items of a program.

Items are checked in order, each against the declarations before it, and declare
their names as pending records of the transaction they belong to. An item that
conflicts with an earlier declaration is reported and declares nothing.

Owns: global variables, functions and prototypes, and the analysis of an item list.

Does not own: what stands inside a function body.
-/

namespace IncrementalC

open Syntax (Expression Statement Item Parameter TypeName)

/-- The outcome of checking a list of items. -/
structure Analysis where
  table : DeclarationTable
  /-- The new declarations in order. -/
  declarations : List DeclarationId
  unit : CodeUnit
  diagnostics : List Diagnostic

namespace Analysis

/-- The outcome of checking no items. -/
def start (table : DeclarationTable) (owner : TransactionId) : Analysis :=
  ⟨table, [], .empty (some owner), []⟩

/-- Whether an error was reported. -/
def hasErrors (analysis : Analysis) : Bool := analysis.diagnostics.any Diagnostic.isError

/-- The outcome with further reports. -/
def addReports (analysis : Analysis) (reports : List Diagnostic) : Analysis :=
  { analysis with diagnostics := analysis.diagnostics ++ reports }

/-- The outcome with one more report. -/
def report (analysis : Analysis) (problem : Problem) (span : Span) : Analysis :=
  analysis.addReports [problem.reportAt span]

/-- Declares a name. -/
def declare (analysis : Analysis) (owner : TransactionId) (name : String)
    (kind : DeclarationKind) (span : Span) : DeclarationId × Analysis :=
  let (id, table) := analysis.table.declare name kind owner span
  (id, { analysis with table, declarations := analysis.declarations ++ [id] })

/-- Adds a global variable with its first value. A value that is no constant is
computed by an initializer. -/
def addGlobal (analysis : Analysis) (name : String) (declaration : DeclarationId)
    (value : Option Code.Expression) : Analysis :=
  let constant : Option Int64 := match value with
    | none => some 0
    | some (.integer value) => some value
    | some _ => none
  let initializers : List Code.Initializer := match constant, value with
    | none, some value => [⟨name, declaration, value⟩]
    | _, _ => []
  { analysis with
    unit := { analysis.unit with
      globals := analysis.unit.globals ++ [⟨name, declaration, constant⟩],
      initializers := analysis.unit.initializers ++ initializers } }

/-- Adds a function. -/
def addFunction (analysis : Analysis) (function : Code.Function) : Analysis :=
  { analysis with
    unit := { analysis.unit with functions := analysis.unit.functions ++ [function] } }

/-! ## Variables -/

/-- Checks a global variable of type `int` that nothing declares yet. -/
def declareVariable (analysis : Analysis) (owner : TransactionId) (name : String)
    (initial : Option Expression) (span : Span) : Analysis :=
  let value : Checked (Option Code.Expression) := match initial with
    | none => pure none
    | some initial => some <$> lowerInt analysis.table [] initial
  let reported := analysis.addReports value.reports
  let (declaration, declared) := reported.declare owner name .variable span
  declared.addGlobal name declaration value.value

/-- Checks a global variable. -/
def checkVariable (analysis : Analysis) (owner : TransactionId) (type : TypeName)
    (name : String) (initial : Option Expression) (span : Span) : Analysis :=
  match type with
  | .void => analysis.report (.voidVariable name) span
  | .auto => analysis.report (.autoVariable name) span
  | .int =>
    match (analysis.table.lookup name).map DeclarationRecord.kind with
    | some .variable => analysis.report (.redefinition name) span
    | some (.function _ _ _) => analysis.report (.variableHidesFunction name) span
    | none => analysis.declareVariable owner name initial span

/-! ## Functions -/

/-- What an earlier declaration of the same function says. -/
structure EarlierFunction where
  returns : ReturnKind
  definition : Option TransactionId
deriving DecidableEq, Repr

/-- The return kind that a type name states; `auto` states none. -/
def statedReturn : TypeName → Option ReturnKind
  | .int => some .int
  | .void => some .void
  | .auto => none

/-- The earlier declaration that a function continues, or how it conflicts with it. -/
def earlierFunction (table : DeclarationTable) (name : String) (arity : Nat)
    (stated : Option ReturnKind) (hasBody : Bool) : Except Problem (Option EarlierFunction) :=
  match (table.lookup name).map DeclarationRecord.kind with
  | none => .ok none
  | some .variable => .error (.functionHidesVariable name)
  | some (.function earlierArity returns definition) =>
    if earlierArity ≠ arity ∨ (stated.isSome ∧ stated ≠ some returns) then
      .error (.conflictingTypes name)
    else if hasBody ∧ definition.isSome then
      .error (.redefinition name)
    else
      .ok (some ⟨returns, definition⟩)

/-- Binds the parameters of a function in order. -/
def bindParameters (table : DeclarationTable) : Scope → List Parameter → Checked Scope
  | scope, [] => pure scope
  | scope, parameter :: rest => do
    .reportIf (parameter.type ≠ .int) (.voidParameter parameter.name) parameter.span
    .reportIf (scope.declaredHere parameter.name) (.duplicateParameter parameter.name)
      parameter.span
    warnShadowing table parameter.name parameter.span
    bindParameters table (scope.bind parameter.name).2 rest

/-- Checks and lowers a function body. The parameters stand in a block around it. -/
def lowerBody (table : DeclarationTable) (stated : Option ReturnKind)
    (parameters : List Parameter) (body : List Statement) :
    Checked (List Code.Statement × Scope) := do
  let scope ← bindParameters table (.ofFunction stated) parameters
  lowerBlock table scope.enter body

/-- Checks a function with a body, which is already declared, and settles what it
returns. -/
def defineFunction (analysis : Analysis) (declaration : DeclarationId)
    (earlier : Option EarlierFunction) (owner : TransactionId) (type : TypeName)
    (name : String) (parameters : List Parameter) (body : List Statement) (span : Span) :
    Analysis :=
  let lowered := lowerBody analysis.table (statedReturn type) parameters body
  let scope := lowered.value.2
  let returns : ReturnKind := scope.returns.getD .void
  let isDeduced := decide (type = TypeName.auto)
  let conflicts := isDeduced && (match earlier with
    | some earlier => decide (earlier.returns ≠ returns)
    | none => false)
  let mayFallOff := decide (returns = .int) && !someAlwaysReturns body
  let reports := lowered.reports ++
    (Checked.reportIf conflicts (.conflictingTypes name) span).reports ++
    (Checked.reportIf mayFallOff (.missingReturn name) span).reports
  let table :=
    if isDeduced then
      analysis.table.refine declaration (.function parameters.length returns (some owner))
    else
      analysis.table
  ({ analysis with table }.addReports reports).addFunction
    { name, declaration, parameters := parameters.length, frameSize := scope.nextSlot,
      returnsValue := decide (returns = ReturnKind.int), body := lowered.value.1 }

/-- Checks a function or a prototype. -/
def checkFunction (analysis : Analysis) (owner : TransactionId) (type : TypeName)
    (name : String) (parameters : List Parameter) (body : Option (List Statement))
    (span : Span) : Analysis :=
  if type = TypeName.auto ∧ body.isNone then
    analysis.report (.deducedPrototype name) span
  else
    let stated := statedReturn type
    match earlierFunction analysis.table name parameters.length stated body.isSome with
    | .error problem => analysis.report problem span
    | .ok earlier =>
      let definition := if body.isSome then some owner else earlier.bind EarlierFunction.definition
      let (declaration, declared) := analysis.declare owner name
        (.function parameters.length (stated.getD .int) definition) span
      match body with
      | none => declared
      | some body =>
        declared.defineFunction declaration earlier owner type name parameters body span

/-! ## Items -/

def checkItem (owner : TransactionId) (analysis : Analysis) : Item → Analysis
  | .variable type name initial span => analysis.checkVariable owner type name initial span
  | .function returns name parameters body _ span =>
    analysis.checkFunction owner returns name parameters body span

end Analysis

/-- Checks and lowers items on behalf of a transaction. -/
def analyze (items : List Item) (table : DeclarationTable) (owner : TransactionId) : Analysis :=
  items.foldl (Analysis.checkItem owner) (.start table owner)

end IncrementalC
