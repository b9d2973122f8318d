import IncrementalC.Session.Basic

/-!
Contract: compiling text in a session and running what was compiled.

Owns:
- handing the code of a committed transaction to the engine;
- running with definitions of missing names declared on the way, once;
- compiling text and running it when its options ask for it;
- running a function by name.

Does not own: whether input is wrapped.
-/

namespace IncrementalC.Session

def compile (request : CompileRequest) : Step CompileReport := do
  let session ← get
  let (report, compiler, log) ← guardMisuse (session.compiler.compile session.log request)
  set { session with compiler, log }
  return report

/-- Discards the transaction that waits for more input. -/
def abandonOpen : Step Unit :=
  modify fun session => { session with compiler := session.compiler.abandonOpen.2 }

/-- Hands the code of a logged transaction to the engine. -/
def trackCommitted (id : TransactionId) : Step Unit :=
  modify fun session =>
    match session.log.get? id with
    | none => session
    | some transaction =>
      let (unit, checker) := session.compiler.checker.collectUnit id
      { session with
        compiler := { session.compiler with checker },
        engine := session.engine.track transaction unit }.notify (.committed transaction)

/-- Runs a function of a transaction with the definitions at hand. -/
def emitAndRun (id : TransactionId) (entry : Option String) : Step Execution := do
  let log := (← get).log
  withEngine fun engine => engine.emitAndRun log id entry

/-- Asks the provider for the definitions of several names, in order. -/
def requestDefinitions (provider : DefinitionProvider) (names : List String) :
    Step (List (String × String)) := do
  let earlier := (← get).engine.host.trace.definitionsRequested
  modify fun session =>
    { session with
      engine := names.foldl (fun engine name => engine.record (.definitionRequested name))
        session.engine }
  return provider.definitions earlier names

/-- Declares a definition of a missing name, and says whether it compiled. -/
def declareDefinition (name source : String) : Step Bool := do
  let origin := (← get).compiler.checker.lookup name
  let report ← compile { text := source, options := .declaration, origin }
  match report.verdict with
  | .success =>
    trackCommitted report.transaction
    return true
  | .moreInputExpected =>
    abandonOpen
    return false
  | .failure => return false

/-- Declares several definitions in order and counts those that compiled. -/
def declareDefinitions : List (String × String) → Step Nat
  | [] => pure 0
  | definition :: rest => do
    let declared ← declareDefinition definition.1 definition.2
    let others ← declareDefinitions rest
    return (if declared then 1 else 0) + others

/-- Runs a function of a transaction. When names are missing, declares what the
provider has for them and, if anything compiled, runs once more. -/
def runWithDefinitions (id : TransactionId) (entry : Option String) : Step Execution := do
  let execution ← emitAndRun id entry
  if execution.result = .unresolvedSymbols then
    match (← get).provider with
    | none => return execution
    | some provider =>
      let definitions ← requestDefinitions provider execution.unresolved
      let declared ← declareDefinitions definitions
      if declared = 0 then return execution else emitAndRun id entry
  else
    return execution

/-- Compiles text, and runs it if its transaction is of that kind. -/
def compileAndRun (text : String) (options : TransactionOptions) (entry : Option String) :
    Step Outcome := do
  let fatalWarnings := (← get).config.fatalWarnings
  let report ← compile { text, options := options.withFatalWarnings fatalWarnings, entry }
  let outcome := Outcome.ofReport report
  match report.verdict with
  | .failure | .moreInputExpected => return outcome
  | .success =>
    trackCommitted report.transaction
    match (← get).log.get? report.transaction with
    | none => return outcome
    | some transaction =>
      if transaction.options.runsInitializers then
        let execution ← runWithDefinitions report.transaction transaction.entry
        return outcome.withExecution execution
      else
        return outcome

/-- Runs a declared function that takes no arguments. -/
def runFunction (name : String) : Step Execution := do
  let session ← get
  match session.compiler.checker.functionInfo? name with
  | none => return .ended .unknownFunction
  | some info =>
    if info.arity ≠ 0 then
      return .ended .unknownFunction
    else
      match info.definition with
      | none => return .ended .functionNotCompiled
      | some definition =>
        match session.engine.status? definition with
        | none | some .excluded => return .ended .functionNotCompiled
        | some _ => runWithDefinitions definition (some name)

/-- Generates waiting code and initializes, without running a function. -/
def emitAll (id : TransactionId) : Step Execution := runWithDefinitions id none

end IncrementalC.Session
