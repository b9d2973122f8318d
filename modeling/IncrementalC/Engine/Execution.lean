import IncrementalC.Engine.Reachability

/-!
Contract: running committed transactions.

Before anything runs, waiting code is generated and every transaction that can be
initialized is, in the order of the commits. A transaction whose initializers need a
missing name is blocked, and so is every later one that uses a blocked one's names.

Owns:
- the outcome of an execution;
- static initialization;
- running a function of a transaction.

Does not own: providing missing names.
-/

namespace IncrementalC

/-- How an execution ended. -/
inductive ExecutionResult where
  | success
  /-- No code is generated for the transaction. -/
  | noCodeGeneration
  /-- The function has no code. -/
  | functionNotCompiled
  /-- Names are missing; the execution can be tried again once they are defined. -/
  | unresolvedSymbols
  /-- No code could be generated. -/
  | compilationError
  | unknownFunction
  /-- The running code failed. -/
  | faulted
deriving DecidableEq, Repr

/-- The name of a result in messages. -/
def ExecutionResult.describe : ExecutionResult → String
  | .success => "Success"
  | .noCodeGeneration => "NoCodeGen"
  | .functionNotCompiled => "FunctionNotCompiled"
  | .unresolvedSymbols => "UnresolvedSymbols"
  | .compilationError => "CompilationError"
  | .unknownFunction => "UnknownFunction"
  | .faulted => "Faulted"

/-- What came of an execution. -/
structure Execution where
  result : ExecutionResult
  /-- The value of the function, if it ran to its end. -/
  value : Option Value := none
  unresolved : NameSet := []
  fault : Option Fault := none
  generationError : Option GenerationError := none
deriving DecidableEq, Repr

namespace Execution

/-- An execution that ended without more to say. -/
def ended (result : ExecutionResult) : Execution := { result }

def lacking (names : NameSet) : Execution := { result := .unresolvedSymbols, unresolved := names }

def failedWith (fault : Fault) : Execution := { result := .faulted, fault := some fault }

/-- Whether the execution ran to its end. -/
def isSuccess (execution : Execution) : Bool := execution.result = .success

end Execution

namespace Engine

/-! ## Static initialization -/

/-- A transaction whose code is generated and not initialized. -/
structure Waiting where
  id : TransactionId
  module : ModuleId
  symbols : List String
  references : List String
deriving DecidableEq, Repr

/-- The transactions that wait for initialization, in the order of the commits. -/
def waiting (engine : Engine) : List Waiting :=
  engine.states.filterMap fun entry =>
    match entry.2 with
    | .emitted module false symbols references => some ⟨entry.1, module, symbols, references⟩
    | _ => none

/-- Runs initializers in order up to the first that fails. -/
def runInitializers (engine : Engine) (owner : TransactionId) :
    List Machine.InitializerEntry → Except Breakdown (Option Fault × Engine)
  | [] => .ok (none, engine)
  | entry :: rest =>
    match engine.runFor .initializer (.transaction owner) (some entry.declaration) entry.address [] with
    | .error breakdown => .error breakdown
    | .ok (.error fault, after) => .ok (some fault, after)
    | .ok (.ok _, after) => runInitializers after owner rest

/-- What blocked transactions leave behind for those after them. -/
structure Blockage where
  /-- The names that blocked transactions define. -/
  symbols : List String
  /-- The names that blocked transactions lack. -/
  missing : NameSet
  /-- Whether the transaction to run is blocked. -/
  includesTarget : Bool
deriving DecidableEq, Repr

/-- Initializes waiting transactions in order; ends early when an initializer of
`target` fails. -/
def initializeAll (target : TransactionId) (engine : Engine) (blockage : Blockage) :
    List Waiting → Except Breakdown (Option Execution × Engine)
  | [] =>
    .ok (if blockage.includesTarget then some (.lacking blockage.missing) else none, engine)
  | next :: rest =>
    let initializers := engine.machine.initializersOf next.module
    let (missing, searched) :=
      engine.missingNames (initializers.map Machine.InitializerEntry.address)
    if !missing.isEmpty || next.references.any fun name => decide (name ∈ blockage.symbols) then
      initializeAll target searched
        { symbols := blockage.symbols ++ next.symbols,
          missing := NameSet.insertAll missing blockage.missing,
          includesTarget := blockage.includesTarget || decide (next.id = target) } rest
    else
      let marked :=
        { searched with states := markInitialized next.id searched.states }.note
          (.initialized next.id)
      match marked.runInitializers next.id initializers with
      | .error breakdown => .error breakdown
      | .ok (some fault, after) =>
        if next.id = target then .ok (some (.failedWith fault), after)
        else initializeAll target after blockage rest
      | .ok (none, after) => initializeAll target after blockage rest

/-- Initializes what can be initialized; yields the execution to report when `target`
cannot run. -/
def runStaticInitializers (engine : Engine) (target : TransactionId) :
    Except Breakdown (Option Execution × Engine) :=
  initializeAll target engine ⟨[], [], false⟩ engine.waiting

/-! ## Running a transaction -/

/-- Runs a function by name once everything it needs is initialized. -/
def runEntry (engine : Engine) (id : TransactionId) (origin : Option DeclarationId)
    (entry : String) : Except Breakdown (Execution × Engine) :=
  match engine.machine.resolve? entry with
  | none => .ok (.ended .unknownFunction, engine)
  | some address =>
    let (missing, searched) := engine.missingNames [address]
    if missing.isEmpty then
      match searched.runFor (.entry entry) (.transaction id) origin address [] with
      | .error breakdown => .error breakdown
      | .ok (.error fault, after) => .ok (.failedWith fault, after)
      | .ok (.ok value, after) => .ok ({ result := .success, value := some value }, after)
    else
      .ok (.lacking missing, searched)

/-- Why generated code cannot be run, if it cannot. -/
def refusal? (engine : Engine) (id : TransactionId) (entry : Option String) : Option Execution :=
  match engine.state? id with
  | some (.failed error) =>
    some { result := .compilationError, generationError := some error }
  | some (.emitted _ _ symbols _) =>
    match entry with
    | none => none
    | some name => if name ∈ symbols then none else some (.ended .unknownFunction)
  | _ => some (.ended .functionNotCompiled)

/-- Generates waiting code, initializes, and runs a function of a transaction. -/
def emitAndRun (engine : Engine) (log : TransactionLog) (id : TransactionId)
    (entry : Option String) : Except Breakdown (Execution × Engine) :=
  match log.get? id with
  | none => .ok (.ended .unknownFunction, engine)
  | some transaction =>
    if transaction.state ≠ .committed then
      .error (.misuse (.uncommittedRun id))
    else
      match engine.state? id with
      | none => .ok (.ended .functionNotCompiled, engine)
      | some .excluded => .ok (.ended .noCodeGeneration, engine)
      | some _ =>
        let emitted := engine.emitPending
        match emitted.refusal? id entry with
        | some execution => .ok (execution, emitted)
        | none =>
          match emitted.runStaticInitializers id with
          | .error breakdown => .error breakdown
          | .ok (some execution, initialized) => .ok (execution, initialized)
          | .ok (none, initialized) =>
            match entry with
            | none => .ok (.ended .success, initialized)
            | some name =>
              initialized.runEntry id transaction.declarations.getLast? name

end Engine

end IncrementalC
