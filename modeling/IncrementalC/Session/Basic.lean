import IncrementalC.Compilation.Compiler
import IncrementalC.Config.Basic
import IncrementalC.Engine.Unloading
import IncrementalC.Input.Balance
import IncrementalC.Input.Wrapping

/-!
Contract: the state of an interpreter and what it reports.

Owns:
- the parts of an interpreter and its buffered input;
- observers, definition providers and the output for echoed values;
- the outcome of submitted input.

Does not own: the operations, which stand in the modules beside this one.
-/

namespace IncrementalC

/-- What submitted input is for. -/
inductive InputMode where
  | declare
  /-- Declare without ever generating code. -/
  | headerOnly
  | evaluate
  /-- Evaluate and print the value. -/
  | echo
  /-- Run as statements. -/
  | execute
deriving DecidableEq, Repr

/-- Input to be wrapped that is not complete yet. -/
structure BufferedInput where
  mode : InputMode
  text : String
deriving DecidableEq, Repr

/-- Whoever has definitions of missing names. What source text there is for a name, if any, can
depend on the names that were asked for earlier, newest first. -/
structure DefinitionProvider where
  define : (earlier : List String) → (name : String) → Option String

/-- A provider that answers by the name alone. -/
instance : Coe (String → Option String) DefinitionProvider := ⟨fun define => ⟨fun _ => define⟩⟩

/-- The definitions that a provider has for several names, which it is asked for in order. -/
def DefinitionProvider.definitions (provider : DefinitionProvider) :
    (earlier names : List String) → List (String × String)
  | _, [] => []
  | earlier, name :: rest =>
    let others := provider.definitions (name :: earlier) rest
    match provider.define earlier name with
    | none => others
    | some source => (name, source) :: others

/-- Someone who is told of the changes that concern them. -/
structure Observer where
  hears : Notification → Bool

/-- Told of every change. -/
def Observer.attentive : Observer := ⟨fun _ => true⟩

/-- Told of no change. -/
def Observer.silent : Observer := ⟨fun _ => false⟩

/-- Where echoed values go; a broken output takes nothing. -/
structure Output where
  text : String
  isBroken : Bool
deriving DecidableEq, Repr

def Output.writeLine (output : Output) (line : String) : Output :=
  if output.isBroken then output else { output with text := output.text ++ line ++ "\n" }

/-- What came of submitted input. -/
structure Outcome where
  verdict : CompileVerdict
  transaction : Option TransactionId
  /-- How the execution ended, if the input was executed. -/
  execution : Option ExecutionResult := none
  value : Option Value := none
  unresolved : NameSet := []
  fault : Option Fault := none
  diagnostics : List Diagnostic := []
deriving DecidableEq, Repr

namespace Outcome

/-- The outcome of input that was compiled and not executed. -/
def ofReport (report : CompileReport) : Outcome :=
  { verdict := report.verdict, transaction := some report.transaction,
    diagnostics := report.diagnostics }

/-- The outcome of input that is only buffered. -/
def buffered : Outcome := { verdict := .moreInputExpected, transaction := none }

/-- The outcome together with that of the execution. -/
def withExecution (outcome : Outcome) (execution : Execution) : Outcome :=
  { outcome with
    execution := some execution.result, value := execution.value,
    unresolved := execution.unresolved, fault := execution.fault }

/-- Whether the input compiled, and ran to its end if it ran. -/
def isSuccess (outcome : Outcome) : Bool :=
  decide (outcome.verdict = .success) &&
    (match outcome.execution with
      | none => true
      | some result => decide (result = .success))

end Outcome

/-- An interpreter. -/
structure Session where
  config : Config
  log : TransactionLog
  compiler : Compiler
  engine : Engine
  names : Input.NameSupply
  buffer : Option BufferedInput
  provider : Option DefinitionProvider
  observer : Option Observer
  output : Output
  files : Files.FileTree

namespace Session

/-- A computation of an interpreter that may break down. -/
abbrev Step : Type → Type := StateT Session (Except Breakdown)

/-- An interpreter that has seen nothing. -/
def new (config : Config) (source : LibrarySource) (files : Files.FileTree) : Session :=
  { config, log := .empty, compiler := .new, engine := .new config.limits source,
    names := .new, buffer := none, provider := none, observer := none,
    output := ⟨"", false⟩, files }

/-- Whether the next input continues unfinished input. -/
def isContinuing (session : Session) : Bool :=
  session.buffer.isSome || session.compiler.opened.isSome

/-- Tells the observer of a change. -/
def notify (session : Session) (notification : Notification) : Session :=
  match session.observer with
  | none => session
  | some observer =>
    if observer.hears notification then
      { session with engine := session.engine.record (.notified notification) }
    else
      session

/-- Refuses what the system's rules forbid. -/
def guardMisuse {α : Type} (result : Except Misuse α) : Step α :=
  match result with
  | .ok value => pure value
  | .error misuse => throw (.misuse misuse)

/-- Runs a computation of the engine. -/
def withEngine {α : Type} (computation : Engine → Except Breakdown (α × Engine)) : Step α := do
  let session ← get
  let (result, engine) ← computation session.engine
  set { session with engine }
  return result

end Session

end IncrementalC
