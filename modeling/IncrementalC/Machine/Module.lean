import IncrementalC.Code.References
import IncrementalC.Machine.Evaluation

/-!
Contract: generating and running code module by module.

A module is the code of one unit. No name is defined by two live modules, so a name
denotes at most one function or variable, and it is looked up each time it is used.
Calls nest up to a limit.

The numbers of modules are kept in 32 bits, and are taken here not to run out.

Owns:
- live modules, the limits, and the storage of global variables;
- emitting a unit, unloading a module;
- what a name resolves to, and what the code at an address refers to;
- running the code at an address.

Does not own: the host functions that code can call, or who owns a module.
-/

namespace IncrementalC

/-- The limits on running code. -/
structure Limits where
  /-- How many calls may be active at a time. -/
  callDepth : Nat
  /-- How many slots the frame of a function may have. -/
  frameSlots : Nat
  /-- How many rounds a loop may run before it is taken not to end. -/
  loopRounds : Nat
deriving DecidableEq, Repr

/-- The limits unless others are asked for. Rounds are as good as unlimited. -/
def Limits.standard : Limits := ⟨512, 256, 0x4000000000000000⟩

/-- The code of one unit, installed. -/
structure Module where
  id : ModuleId
  unit : CodeUnit
deriving Repr

namespace Module

/-- The address of what a module defines under a name. -/
def address? (module : Module) (name : String) : Option Address :=
  match module.unit.globals.findIdx? fun entry => entry.name = name with
  | some index => some ⟨module.id, .global, index⟩
  | none =>
    match module.unit.functions.findIdx? fun function => function.name = name with
    | some index => some ⟨module.id, .function, index⟩
    | none => none

end Module

/-- The live modules, oldest first, and the values of their variables. -/
structure Machine where
  limits : Limits
  modules : List Module
  globals : Machine.GlobalStore
  nextModule : Nat

/-- What running code asks of the host: calling a native function, and registering a
function for the time its owner goes away. -/
structure Services (σ : Type) where
  callNative : (name : String) → (arguments : List Int64) → σ → Except Fault Int64 × σ
  registerAtExit : (function : String) → Address → (argument : Value) → σ → σ

namespace Machine

/-- A machine without modules. -/
def new (limits : Limits) : Machine := ⟨limits, [], [], 0⟩

/-! ## Look-up -/

/-- The live module with a number. -/
def module? (machine : Machine) (id : ModuleId) : Option Module :=
  machine.modules.find? fun module => module.id = id

def isLive (machine : Machine) (id : ModuleId) : Bool := (machine.module? id).isSome

/-- What a name denotes among the live modules. -/
def resolve? (machine : Machine) (name : String) : Option Address :=
  machine.modules.findSome? fun module => module.address? name

def functionAt? (machine : Machine) (address : Address) : Option Code.Function :=
  match address.kind with
  | .function => (machine.module? address.module).bind fun module =>
    module.unit.functions[address.index]?
  | .global | .initializer => none

def functionAddress? (machine : Machine) (name : String) : Option Address :=
  (machine.resolve? name).filter fun address => address.kind = .function

/-- The function that a name denotes. -/
def function? (machine : Machine) (name : String) : Option Code.Function :=
  (machine.functionAddress? name).bind machine.functionAt?

/-- The value of a live variable. -/
def globalValue? (machine : Machine) (name : String) : Option Int64 :=
  machine.globals.get? name

/-- The names that a live module defines. -/
def symbolsOf (machine : Machine) (id : ModuleId) : List String :=
  match machine.module? id with
  | none => []
  | some module => module.unit.definedNames

/-- The names that a live module uses and does not define. -/
def referencesOf (machine : Machine) (id : ModuleId) : NameSet :=
  match machine.module? id with
  | none => []
  | some module => module.unit.references

/-- The names that the code at an address uses. -/
def referencesAt (machine : Machine) (address : Address) : NameSet :=
  match machine.module? address.module with
  | none => []
  | some module =>
    match address.kind with
    | .function =>
      (module.unit.functions[address.index]?.map Code.Function.references).getD []
    | .initializer =>
      (module.unit.initializers[address.index]?.map Code.Initializer.references).getD []
    | .global => []

/-- An initializer of a module and the declaration it belongs to. -/
structure InitializerEntry where
  address : Address
  declaration : DeclarationId
deriving DecidableEq, Repr

/-- The initializers of a live module in the order of declaration. -/
def initializersOf (machine : Machine) (id : ModuleId) : List InitializerEntry :=
  match machine.module? id with
  | none => []
  | some module =>
    module.unit.initializers.zipIdx.map fun entry =>
      ⟨⟨id, .initializer, entry.2⟩, entry.1.declaration⟩

/-! ## Installing and removing code -/

/-- The first name that is defined twice, or that a live module defines already. -/
def firstDuplicate? (machine : Machine) (seen : List String) : List String → Option String
  | [] => none
  | name :: rest =>
    if (machine.resolve? name).isSome ∨ name ∈ seen then some name
    else firstDuplicate? machine (name :: seen) rest

/-- Why a unit cannot be emitted, if it cannot. -/
def objection? (machine : Machine) (unit : CodeUnit) : Option GenerationError :=
  match machine.firstDuplicate? [] unit.definedNames with
  | some name => some (.duplicateSymbol name)
  | none =>
    (unit.functions.find? fun function => machine.limits.frameSlots < function.frameSize).map
      fun function => .frameTooLarge function.name function.frameSize machine.limits.frameSlots

/-- Installs the code of a unit in a module of its own. -/
def emit (machine : Machine) (unit : CodeUnit) : Except GenerationError (ModuleId × Machine) :=
  match machine.objection? unit with
  | some error => .error error
  | none =>
    let id : ModuleId := ⟨machine.nextModule⟩
    .ok (id,
      { machine with
        modules := machine.modules ++ [⟨id, unit⟩],
        globals := machine.globals ++
          unit.globals.map fun entry => (entry.name, entry.constant.getD 0),
        nextModule := machine.nextModule + 1 })

/-- Removes a module with its variables. -/
def unload (machine : Machine) (id : ModuleId) : Machine :=
  match machine.module? id with
  | none => machine
  | some module =>
    { machine with
      modules := machine.modules.filter fun other => other.id ≠ id,
      globals := machine.globals.filter fun entry =>
        entry.1 ∉ module.unit.globals.map Code.Global.name }

/-! ## Running code -/

/-- Calls a native function. -/
def callNative {σ : Type} (services : Services σ) (name : String) (arguments : List Int64) :
    Run (State σ) Int64 :=
  fun state =>
    match services.callNative name arguments state.host with
    | (.ok value, host) => .ok value { state with host }
    | (.error fault, host) => .error (.fault fault) { state with host }

/-- Registers a function for the time its owner goes away; only generated functions
can be registered. -/
def registerAtExit {σ : Type} (machine : Machine) (services : Services σ) (name : String)
    (argument : Int64) : Run (State σ) Unit :=
  match machine.functionAddress? name with
  | none => faultWith (.unresolved name)
  | some address => modify fun state =>
    { state with host := services.registerAtExit name address (.int argument) state.host }

/-- What code reaches when generated functions are called through `invoke`. -/
def linkage {σ : Type} (machine : Machine) (services : Services σ)
    (invoke : Code.Function → List Int64 → Run (State σ) Value) : Linkage σ where
  call name arguments :=
    match machine.function? name with
    | some function => do return (← invoke function arguments).asInt
    | none => callNative services name arguments
  registerAtExit := machine.registerAtExit services
  rounds := machine.limits.loopRounds

/-- Calls a function when `allowance` more calls may become active. -/
def invoke {σ : Type} (machine : Machine) (services : Services σ) :
    (allowance : Nat) → Code.Function → List Int64 → Run (State σ) Value
  | 0, _, _ => faultWith (.stackOverflow (machine.limits.callDepth + 1))
  | allowance + 1, function, arguments =>
    activate (machine.linkage services (machine.invoke services allowance)) function arguments

/-- Computes the first value of a variable and stores it. -/
def runInitializer {σ : Type} (machine : Machine) (services : Services σ)
    (initializer : Code.Initializer) : Run (State σ) Value := do
  let linkage := machine.linkage services (machine.invoke services machine.limits.callDepth)
  let value ← insideFrame #[] (evaluate linkage initializer.value)
  writeGlobal initializer.global value
  return .void

/-- Runs what stands at an address; nothing stands at an address of a removed
module. -/
def runAt {σ : Type} (machine : Machine) (services : Services σ) (address : Address)
    (arguments : List Value) : Run (State σ) Value :=
  let nothing : Run (State σ) Value := faultWith (.unresolved address.render)
  match machine.module? address.module with
  | none => nothing
  | some module =>
    match address.kind with
    | .function =>
      match module.unit.functions[address.index]? with
      | none => nothing
      | some function =>
        machine.invoke services machine.limits.callDepth function (arguments.map Value.asInt)
    | .initializer =>
      match module.unit.initializers[address.index]? with
      | none => nothing
      | some initializer => machine.runInitializer services initializer
    | .global =>
      match module.unit.globals[address.index]? with
      | none => nothing
      | some entry => do
        match (← get).globals.get? entry.name with
        | some value => return .int value
        | none => nothing

/-- Runs what stands at an address. Running changes variables and the host, nothing
else. -/
def run {σ : Type} (machine : Machine) (services : Services σ) (address : Address)
    (arguments : List Value) (host : σ) : Except Stop Value × Machine × σ :=
  match machine.runAt services address arguments ⟨machine.globals, host⟩ with
  | .ok value state => (.ok value, { machine with globals := state.globals }, state.host)
  | .error stop state => (.error stop, { machine with globals := state.globals }, state.host)

end Machine

end IncrementalC
