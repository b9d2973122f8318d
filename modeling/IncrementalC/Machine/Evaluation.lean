import IncrementalC.Code.Unit
import IncrementalC.Machine.Address
import IncrementalC.Machine.Fault
import IncrementalC.Value

/-!
Contract: what lowered code does when it runs.

Operands and arguments are evaluated from left to right. Arithmetic is on 64-bit
integers and wraps; division and remainder by zero fault. The state that code has
changed before a fault stays changed.

Code reaches everything outside its frame through a linkage: calling a function by
name, and registering one for the time its owner goes away. Evaluation recurses on
the code. Only loops need a bound, the number of rounds a run is given, which is part
of the linkage.

Owns:
- the state of running code and the storage of global variables;
- expressions, statements and the activation of one function.

Does not own: which function a name denotes, or how deep calls may nest.
-/

namespace IncrementalC.Machine

open Code (Expression Statement)

/-! ## State -/

/-- The values of the global variables. -/
abbrev GlobalStore : Type := List (String × Int64)

namespace GlobalStore

/-- The value of a variable. -/
def get? (store : GlobalStore) (name : String) : Option Int64 :=
  (store.find? fun entry => entry.1 = name).map Prod.snd

/-- Whether there is a variable of that name. -/
def contains (store : GlobalStore) (name : String) : Bool :=
  store.any fun entry => entry.1 = name

/-- The store with a new value for a variable it has. -/
def assign (store : GlobalStore) (name : String) (value : Int64) : GlobalStore :=
  store.map fun entry => if entry.1 = name then (name, value) else entry

end GlobalStore

/-- What running code changes: global variables, and the state of the host. -/
structure State (σ : Type) where
  globals : GlobalStore
  host : σ

/-- A running function: its frame beside the state it shares. -/
structure Activation (σ : Type) where
  frame : Array Int64
  state : State σ

/-- A computation that can be stopped and keeps what it changed. -/
abbrev Run (State : Type) : Type → Type := EStateM Stop State

/-- What code reaches by name, and how long a loop may run. -/
structure Linkage (σ : Type) where
  call : (function : String) → (arguments : List Int64) → Run (State σ) Int64
  registerAtExit : (function : String) → (argument : Int64) → Run (State σ) Unit
  rounds : Nat

/-- Runs a computation on the shared state beside a frame. -/
def outsideFrame {σ α : Type} (computation : Run (State σ) α) : Run (Activation σ) α :=
  fun ⟨frame, state⟩ =>
    match computation state with
    | .ok result after => .ok result ⟨frame, after⟩
    | .error stop after => .error stop ⟨frame, after⟩

/-- Stops with a fault. -/
def faultWith {State α : Type} (fault : Fault) : Run State α := throw (.fault fault)

/-! ## Storage -/

/-- Reads a global variable. -/
def readGlobal {σ : Type} (name : String) : Run (State σ) Int64 := do
  match (← get).globals.get? name with
  | some value => return value
  | none => faultWith (.unresolved name)

/-- Writes a global variable. -/
def writeGlobal {σ : Type} (name : String) (value : Int64) : Run (State σ) Unit := do
  if (← get).globals.contains name then
    modify fun state => { state with globals := state.globals.assign name value }
  else
    faultWith (.unresolved name)

/-- Reads a slot of the frame. -/
def readSlot {σ : Type} (slot : Nat) : Run (Activation σ) Int64 := do
  let frame := (← get).frame
  match frame[slot]? with
  | some value => return value
  | none => throw (.breakdown (.slotOutsideFrame slot frame.size))

/-- Writes a slot of the frame. -/
def writeSlot {σ : Type} (slot : Nat) (value : Int64) : Run (Activation σ) Unit :=
  fun ⟨frame, state⟩ =>
    if slot < frame.size then .ok () ⟨frame.setIfInBounds slot value, state⟩
    else .error (.breakdown (.slotOutsideFrame slot frame.size)) ⟨frame, state⟩

/-! ## Operators -/

/-- The integer that stands for a truth value. -/
def truth (condition : Bool) : Int64 := if condition then 1 else 0

/-- The value of a unary operator. -/
def applyUnary : UnaryOperator → Int64 → Int64
  | .negate, operand => -operand
  | .not, operand => truth (operand = 0)

/-- The value of a binary operator. -/
def applyStrict : StrictOperator → Int64 → Int64 → Except Fault Int64
  | .add, left, right => .ok (left + right)
  | .subtract, left, right => .ok (left - right)
  | .multiply, left, right => .ok (left * right)
  | .divide, left, right => if right = 0 then .error .divisionByZero else .ok (left / right)
  | .remainder, left, right => if right = 0 then .error .divisionByZero else .ok (left % right)
  | .equal, left, right => .ok (truth (left = right))
  | .notEqual, left, right => .ok (truth (left ≠ right))
  | .less, left, right => .ok (truth (left < right))
  | .lessEqual, left, right => .ok (truth (left ≤ right))
  | .greater, left, right => .ok (truth (right < left))
  | .greaterEqual, left, right => .ok (truth (right ≤ left))

/-! ## Expressions -/

mutual

def evaluate {σ : Type} (linkage : Linkage σ) : Expression → Run (Activation σ) Int64
  | .integer value => pure value
  | .slot slot => readSlot slot
  | .global name => outsideFrame (readGlobal name)
  | .assignSlot slot value => do
    let result ← evaluate linkage value
    writeSlot slot result
    return result
  | .assignGlobal name value => do
    let result ← evaluate linkage value
    outsideFrame (writeGlobal name result)
    return result
  | .call callee arguments => do
    let values ← evaluateAll linkage arguments
    outsideFrame (linkage.call callee values)
  | .atExit function argument => do
    let value ← evaluate linkage argument
    outsideFrame (linkage.registerAtExit function value)
    return 0
  | .unary operator operand => do
    let value ← evaluate linkage operand
    return applyUnary operator value
  | .binary operator left right => do
    let leftValue ← evaluate linkage left
    let rightValue ← evaluate linkage right
    match applyStrict operator leftValue rightValue with
    | .ok result => return result
    | .error fault => faultWith fault
  | .and left right => do
    let leftValue ← evaluate linkage left
    if leftValue = 0 then
      return 0
    else
      let rightValue ← evaluate linkage right
      return truth (rightValue ≠ 0)
  | .or left right => do
    let leftValue ← evaluate linkage left
    if leftValue = 0 then
      let rightValue ← evaluate linkage right
      return truth (rightValue ≠ 0)
    else
      return 1

/-- The values of several expressions, in order. -/
def evaluateAll {σ : Type} (linkage : Linkage σ) :
    List Expression → Run (Activation σ) (List Int64)
  | [] => pure []
  | head :: tail => do
    let value ← evaluate linkage head
    let values ← evaluateAll linkage tail
    return value :: values

end

/-! ## Statements -/

/-- How a statement ends. -/
inductive Flow where
  | normal
  | returned (value : Option Int64)
deriving DecidableEq, Repr

/-- Runs `body` as long as `condition` is not zero, for at most `rounds` rounds. -/
def repeatWhile {σ : Type} (condition : Run (Activation σ) Int64)
    (body : Run (Activation σ) Flow) : (rounds : Nat) → Run (Activation σ) Flow
  | 0, activation => .error (.breakdown .endlessLoop) activation
  | rounds + 1, activation =>
    match condition activation with
    | .error stop after => .error stop after
    | .ok value tested =>
      if value = 0 then
        .ok .normal tested
      else
        match body tested with
        | .error stop after => .error stop after
        | .ok (.returned result) after => .ok (.returned result) after
        | .ok .normal after => repeatWhile condition body rounds after

mutual

/-- Runs a statement. -/
def execute {σ : Type} (linkage : Linkage σ) : Statement → Run (Activation σ) Flow
  | .evaluate value => do
    let _ ← evaluate linkage value
    return .normal
  | .store slot value => do
    let result ← evaluate linkage value
    writeSlot slot result
    return .normal
  | .choose condition whenTrue whenFalse => do
    let value ← evaluate linkage condition
    if value = 0 then executeAll linkage whenFalse else executeAll linkage whenTrue
  | .loop condition body =>
    repeatWhile (evaluate linkage condition) (executeAll linkage body) linkage.rounds
  | .leave none => return .returned none
  | .leave (some value) => do
    let result ← evaluate linkage value
    return .returned (some result)

/-- Runs statements in order up to the first that returns. -/
def executeAll {σ : Type} (linkage : Linkage σ) : List Statement → Run (Activation σ) Flow
  | [] => pure .normal
  | head :: tail => do
    match (← execute linkage head) with
    | .returned value => return .returned value
    | .normal => executeAll linkage tail

end

/-! ## Functions -/

/-- The frame of a call. Arguments fill the first slots; surplus ones are dropped and
missing ones are zero. -/
def callFrame (function : Code.Function) (arguments : List Int64) : Array Int64 :=
  let size := max function.frameSize function.parameters
  let given := arguments.take function.parameters
  (given ++ List.replicate (size - given.length) 0).toArray

/-- The value that a function hands back when its body ends with `flow`. -/
def returnedValue (function : Code.Function) (flow : Flow) : Value :=
  if function.returnsValue then
    match flow with
    | .returned (some value) => .int value
    | .returned none | .normal => .int 0
  else
    .void

/-- Runs a computation in a frame of its own. -/
def insideFrame {σ α : Type} (frame : Array Int64) (computation : Run (Activation σ) α) :
    Run (State σ) α :=
  fun state =>
    match computation ⟨frame, state⟩ with
    | .ok result after => .ok result after.state
    | .error stop after => .error stop after.state

/-- Runs a function body. -/
def activate {σ : Type} (linkage : Linkage σ) (function : Code.Function)
    (arguments : List Int64) : Run (State σ) Value := do
  let flow ← insideFrame (callFrame function arguments) (executeAll linkage function.body)
  return returnedValue function flow

end IncrementalC.Machine
