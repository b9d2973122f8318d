import IncrementalC.Library.Resolver
import IncrementalC.Machine.Module
import IncrementalC.Transaction.Log

/-!
Contract: the code of committed transactions.

The code of a transaction waits until something is run, is then generated in the
order of the commits, and is initialized once.

Owns:
- the state of each transaction's code;
- the host that running code sees;
- the journal of what is done with code;
- generating waiting code, and running the code at an address.

Does not own: when a transaction may run, or what is due when it goes away.
-/

namespace IncrementalC

/-- How far the code of a transaction has come. -/
inductive CodeState where
  | pending (unit : CodeUnit)
  /-- No code is to be generated. -/
  | excluded
  | emitted (module : ModuleId) (initialized : Bool) (symbols references : List String)
  | failed (error : GenerationError)

/-- What is shown of the state of code. -/
inductive CodeStatus where
  | pending
  | excluded
  | emitted (initialized : Bool)
  | failed
deriving DecidableEq, Repr

/-- What is shown of a state. -/
def CodeState.status : CodeState → CodeStatus
  | .pending _ => .pending
  | .excluded => .excluded
  | .emitted _ initialized _ _ => .emitted initialized
  | .failed _ => .failed

/-- The kinds of files that can be loaded. -/
inductive FileKind where
  | source
  | dynamicLibrary
  | binary
deriving DecidableEq, Repr

/-- A file that was loaded, under its canonical name. -/
structure LoadedFile where
  name : String
  kind : FileKind
  library : Option LibraryHandle
deriving DecidableEq, Repr

/-- The latest record of a file of the given kind. -/
def findLoaded? (files : List LoadedFile) (name : String) (kind : FileKind) :
    Option LoadedFile :=
  files.reverse.find? fun file => file.name = name ∧ file.kind = kind

/-- What running code can change outside its variables. -/
structure HostState where
  resolver : Resolver
  atExit : AtExitRegistry
  trace : Trace

/-- The services of the host to code that runs on behalf of `owner`. -/
def hostServices (owner : AtExitOwner) (origin : Option DeclarationId) : Services HostState where
  callNative name arguments host :=
    match host.resolver.resolve name host.trace with
    | (none, resolver, trace) => (.error (.unresolved name), { host with resolver, trace })
    | (some function, resolver, trace) =>
      let (result, after) := function.call arguments trace
      (result, { host with resolver, trace := after })
  registerAtExit function address argument host :=
    { host with
      atExit := host.atExit.register ⟨.generated function address argument, owner, origin⟩,
      trace := .atExitRegistered function address argument :: host.trace }

/-- What code is run for. -/
inductive Purpose where
  | initializer
  | entry (name : String)
  | atExit
  /-- The code at an address was asked for. -/
  | request
deriving DecidableEq, Repr

/-- What can be done with code. -/
inductive Activity where
  | tracked (id : TransactionId)
  /-- Waiting code was generated. -/
  | generated
  | initialized (id : TransactionId)
  | ran (purpose : Purpose) (owner : AtExitOwner) (origin : Option DeclarationId)
      (address : Address) (result : Except Fault Value)
  | dropped (id : TransactionId)

/-- An activity with the code as it stood then. A run is noted with what it started
from, a change with what it led to. -/
structure JournalEntry where
  activity : Activity
  machine : Machine
  states : List (TransactionId × CodeState)
  resolver : Resolver

/-- The code of every tracked transaction, and what it runs on. -/
structure Engine where
  machine : Machine
  /-- By ascending number. -/
  states : List (TransactionId × CodeState)
  host : HostState
  /-- Oldest first; loading only ever adds to it. -/
  loadedFiles : List LoadedFile
  /-- Newest first. Nothing depends on it. -/
  journal : List JournalEntry

namespace Engine

/-- An engine that tracks nothing. -/
def new (limits : Limits) (source : LibrarySource) : Engine :=
  ⟨.new limits, [], ⟨.new source, [], []⟩, [], []⟩

/-- An activity with the code as it stands. -/
def moment (engine : Engine) (activity : Activity) : JournalEntry :=
  ⟨activity, engine.machine, engine.states, engine.host.resolver⟩

/-- Notes a change. -/
def note (engine : Engine) (activity : Activity) : Engine :=
  { engine with journal := engine.moment activity :: engine.journal }

/-! ## States -/

def state? (engine : Engine) (id : TransactionId) : Option CodeState :=
  (engine.states.find? fun entry => entry.1 = id).map Prod.snd

/-- What is shown of the state of a transaction's code. -/
def status? (engine : Engine) (id : TransactionId) : Option CodeStatus :=
  (engine.state? id).map CodeState.status

/-- Places a state among states of ascending number. -/
def placeState (id : TransactionId) (state : CodeState) :
    List (TransactionId × CodeState) → List (TransactionId × CodeState)
  | [] => [(id, state)]
  | entry :: rest =>
    if entry.1.number < id.number then entry :: placeState id state rest
    else if entry.1 = id then (id, state) :: rest
    else (id, state) :: entry :: rest

/-- Starts to track the code of a committed transaction. -/
def track (engine : Engine) (transaction : Transaction) (unit : CodeUnit) : Engine :=
  let state := if transaction.options.generatesCode then CodeState.pending unit else .excluded
  { engine with states := placeState transaction.id state engine.states }.note
    (.tracked transaction.id)

/-- The states with the code of a transaction marked as initialized. -/
def markInitialized (id : TransactionId) (states : List (TransactionId × CodeState)) :
    List (TransactionId × CodeState) :=
  states.map fun entry =>
    match entry.2 with
    | .emitted module _ symbols references =>
      if entry.1 = id then (id, .emitted module true symbols references) else entry
    | _ => entry

/-! ## Generating code -/

/-- The state of waiting code after an attempt to generate it. -/
def emitUnit (machine : Machine) (unit : CodeUnit) : Machine × CodeState :=
  match machine.emit unit with
  | .ok (id, grown) => (grown, .emitted id false (grown.symbolsOf id) (grown.referencesOf id))
  | .error error => (machine, .failed error)

/-- Generates the waiting code among `states`, in order. -/
def emitStates : Machine → List (TransactionId × CodeState) →
    Machine × List (TransactionId × CodeState)
  | machine, [] => (machine, [])
  | machine, entry :: rest =>
    match entry.2 with
    | .pending unit =>
      let (grown, state) := emitUnit machine unit
      let (final, states) := emitStates grown rest
      (final, (entry.1, state) :: states)
    | _ =>
      let (final, states) := emitStates machine rest
      (final, entry :: states)

/-- Generates all waiting code, in the order of the commits. -/
def emitPending (engine : Engine) : Engine :=
  let (machine, states) := emitStates engine.machine engine.states
  { engine with machine, states }.note .generated

/-! ## Running code -/

/-- Runs the code at an address on behalf of `owner` and notes the run. -/
def runFor (engine : Engine) (purpose : Purpose) (owner : AtExitOwner)
    (origin : Option DeclarationId) (address : Address) (arguments : List Value) :
    Except Breakdown (Except Fault Value × Engine) :=
  let finished (result : Except Fault Value) (machine : Machine) (host : HostState) : Engine :=
    { engine with
      machine, host,
      journal := engine.moment (.ran purpose owner origin address result) :: engine.journal }
  match engine.machine.run (hostServices owner origin) address arguments engine.host with
  | (.ok value, machine, host) => .ok (.ok value, finished (.ok value) machine host)
  | (.error (.fault fault), machine, host) =>
    .ok (.error fault, finished (.error fault) machine host)
  | (.error (.breakdown breakdown), _, _) => .error breakdown

/-- Runs the code at an address on behalf of `owner`. -/
def runCode (engine : Engine) (owner : AtExitOwner) (origin : Option DeclarationId)
    (address : Address) (arguments : List Value) :
    Except Breakdown (Except Fault Value × Engine) :=
  engine.runFor .request owner origin address arguments

/-! ## Native functions -/

/-- Adds a native function. -/
def addFunction (engine : Engine) (name : String) (function : NativeFunction) : Engine :=
  { engine with host.resolver := engine.host.resolver.addFunction name function }

/-- Installs the lazy creator of native functions. -/
def setCreator (engine : Engine) (creator : FunctionCreator) : Engine :=
  { engine with host.resolver := engine.host.resolver.setCreator creator }

/-- Makes a library available in the catalog. -/
def provideLibrary (engine : Engine) (name : String) (library : Library) : Engine :=
  { engine with host.resolver.loader := engine.host.resolver.loader.provide name library }

def record (engine : Engine) (event : Event) : Engine :=
  { engine with host.trace := event :: engine.host.trace }

/-- Whether a native function has a name, which may ask the lazy creator. -/
def resolvesNatively (engine : Engine) (name : String) : Bool × Engine :=
  let (function, resolver, trace) := engine.host.resolver.resolve name engine.host.trace
  (function.isSome, { engine with host := { engine.host with resolver, trace } })

/-- Where a name is defined. -/
inductive Location where
  | generated (address : Address)
  | native
deriving DecidableEq, Repr

/-- Where a name is defined, once waiting code is generated. -/
def locate (engine : Engine) (name : String) : Option Location × Engine :=
  let emitted := engine.emitPending
  match emitted.machine.resolve? name with
  | some address => (some (.generated address), emitted)
  | none =>
    let (found, after) := emitted.resolvesNatively name
    (if found then some .native else none, after)

end Engine

end IncrementalC
