import IncrementalC.Machine.Evaluation
import IncrementalC.Syntax.Tree

/-!
Contract: what a function body means, told on the source tree.

A body runs with a stack of scopes, innermost first, beside the state it shares with
everything else. A variable is bound after its first value is computed; a block, a
branch and a round of a loop each open a scope of their own. A name that no scope
binds is a global variable, which is looked up when it is used. Arithmetic is on
integers, wrapped to 64 bits.

Owns: the stack of scopes, the value of an expression, how statements end, and what a
call of a function yields.

Does not own: lowered code, which this meaning does not mention.
-/

namespace IncrementalC.Meaning

open Machine (Run State Flow)
open Syntax (Expression Statement Parameter)

/-! ## Scopes -/

/-- The variables of nested blocks with their values, newest first. -/
abbrev Scopes : Type := List (List (String × Int64))

/-- The value of a variable of one block. -/
def valueIn? (block : List (String × Int64)) (name : String) : Option Int64 :=
  (block.find? fun entry => entry.1 = name).map Prod.snd

/-- A block with a new value for a variable it has. -/
def assignIn (name : String) (value : Int64) :
    List (String × Int64) → List (String × Int64)
  | [] => []
  | entry :: rest =>
    if entry.1 = name then (name, value) :: rest else entry :: assignIn name value rest

namespace Scopes

/-- The value of a variable, from the innermost block that binds it. -/
def value? (scopes : Scopes) (name : String) : Option Int64 :=
  scopes.findSome? fun block => valueIn? block name

/-- The scopes with a new value for a variable of the innermost block that binds it. -/
def assign (name : String) (value : Int64) : Scopes → Scopes
  | [] => []
  | block :: outer =>
    if (valueIn? block name).isSome then assignIn name value block :: outer
    else block :: assign name value outer

/-- The scopes with a new variable in the innermost block. -/
def bind (name : String) (value : Int64) : Scopes → Scopes
  | [] => []
  | block :: outer => ((name, value) :: block) :: outer

end Scopes

/-- The variables of a running function beside the state it shares. -/
structure Memory (σ : Type) where
  scopes : Scopes
  state : State σ

namespace Memory

variable {σ : Type}

def enter (memory : Memory σ) : Memory σ := { memory with scopes := [] :: memory.scopes }

def leave (memory : Memory σ) : Memory σ := { memory with scopes := memory.scopes.tail }

def bind (memory : Memory σ) (name : String) (value : Int64) : Memory σ :=
  { memory with scopes := memory.scopes.bind name value }

end Memory

/-- What a body reaches outside its scopes. -/
structure Environment (σ : Type) where
  /-- Whether the program declares a name; `atexit` is built in unless it does. -/
  declares : String → Bool
  call : (function : String) → (arguments : List Int64) → Run (State σ) Int64
  registerAtExit : (function : String) → (argument : Int64) → Run (State σ) Unit

variable {σ : Type}

/-- Runs a computation on the shared state. -/
def outsideScopes {α : Type} (computation : Run (State σ) α) : Run (Memory σ) α :=
  fun memory =>
    match computation memory.state with
    | .ok result after => .ok result { memory with state := after }
    | .error stop after => .error stop { memory with state := after }

/-- Reads the variable that a name denotes. -/
def readVariable (name : String) : Run (Memory σ) Int64 := fun memory =>
  match memory.scopes.value? name with
  | some value => .ok value memory
  | none => outsideScopes (Machine.readGlobal name) memory

/-- Writes the variable that a name denotes. -/
def writeVariable (name : String) (value : Int64) : Run (Memory σ) Unit := fun memory =>
  match memory.scopes.value? name with
  | some _ => .ok () { memory with scopes := memory.scopes.assign name value }
  | none => outsideScopes (Machine.writeGlobal name value) memory

/-! ## Expressions -/

/-- The integer for a truth value. -/
def flag (condition : Bool) : Int64 := if condition then 1 else 0

def unary : UnaryOperator → Int → Int64
  | .negate, operand => .ofInt (-operand)
  | .not, operand => flag (operand = 0)

/-- Division rounds towards zero, and the remainder has the sign of the left operand. -/
def strict : StrictOperator → Int → Int → Except Fault Int64
  | .add, left, right => .ok (.ofInt (left + right))
  | .subtract, left, right => .ok (.ofInt (left - right))
  | .multiply, left, right => .ok (.ofInt (left * right))
  | .divide, left, right =>
    if right = 0 then .error .divisionByZero else .ok (.ofInt (left.tdiv right))
  | .remainder, left, right =>
    if right = 0 then .error .divisionByZero else .ok (.ofInt (left.tmod right))
  | .equal, left, right => .ok (flag (left = right))
  | .notEqual, left, right => .ok (flag (left ≠ right))
  | .less, left, right => .ok (flag (left < right))
  | .lessEqual, left, right => .ok (flag (left ≤ right))
  | .greater, left, right => .ok (flag (left > right))
  | .greaterEqual, left, right => .ok (flag (left ≥ right))

mutual

/-- The value of an expression. An assignment to something other than a name, and a
registration of something other than a name, are refused before anything runs; they
stand for nothing here. -/
def evaluate (environment : Environment σ) : Expression → Run (Memory σ) Int64
  | .integer value _ => pure value
  | .name name _ => readVariable name
  | .assign (.name name _) value _ => do
    let result ← evaluate environment value
    writeVariable name result
    return result
  | .assign _ value _ => evaluate environment value
  | .call callee arguments _ =>
    if callee = "atexit" ∧ environment.declares callee = false then
      match arguments with
      | .name function _ :: optional => do
        let values ← evaluateAll environment optional
        outsideScopes (environment.registerAtExit function (values.headD 0))
        return 0
      | _ => pure 0
    else do
      let values ← evaluateAll environment arguments
      outsideScopes (environment.call callee values)
  | .unary operator operand _ => do
    let value ← evaluate environment operand
    return unary operator value.toInt
  | .binary .and left right _ => do
    let leftValue ← evaluate environment left
    if leftValue = 0 then return 0
    else
      let rightValue ← evaluate environment right
      return flag (rightValue ≠ 0)
  | .binary .or left right _ => do
    let leftValue ← evaluate environment left
    if leftValue = 0 then
      let rightValue ← evaluate environment right
      return flag (rightValue ≠ 0)
    else return 1
  | .binary (.strict operator) left right _ => do
    let leftValue ← evaluate environment left
    let rightValue ← evaluate environment right
    match strict operator leftValue.toInt rightValue.toInt with
    | .ok result => return result
    | .error fault => Machine.faultWith fault

/-- The values of the arguments of a call, from left to right. -/
def evaluateAll (environment : Environment σ) : List Expression → Run (Memory σ) (List Int64)
  | [] => pure []
  | head :: tail => do
    let value ← evaluate environment head
    let values ← evaluateAll environment tail
    return value :: values

end

/-- The first value of a local variable. -/
def initialValue (environment : Environment σ) : Option Expression → Run (Memory σ) Int64
  | none => pure 0
  | some initial => evaluate environment initial

/-! ## Statements -/

/-- How statements end: normally, with a return, or stopped, and with which memory. -/
abbrev Outcome (σ : Type) : Type := EStateM.Result Stop (Memory σ) Flow

namespace Outcome

/-- The same end, seen from outside the block. -/
def leave : Outcome σ → Outcome σ
  | .ok flow memory => .ok flow memory.leave
  | .error stop memory => .error stop memory.leave

/-- Whether the statements that follow do not run. -/
def Breaks (outcome : Outcome σ) : Prop := ∀ memory, outcome ≠ .ok .normal memory

end Outcome

/-- How a list of statements ends. Loops make this a relation: a list that does not
come to an end has no outcome. -/
inductive Executes (environment : Environment σ) :
    List Statement → Memory σ → Outcome σ → Prop where
  | done (memory : Memory σ) : Executes environment [] memory (.ok .normal memory)
  | declared {type : Syntax.TypeName} {name : String} {initial : Option Expression}
      {span : Span} {rest : List Statement} {memory after : Memory σ} {value : Int64}
      {outcome : Outcome σ}
      (computed : initialValue environment initial memory = .ok value after)
      (following : Executes environment rest (after.bind name value) outcome) :
      Executes environment (.declare type name initial span :: rest) memory outcome
  | declarationStopped {type : Syntax.TypeName} {name : String} {initial : Option Expression}
      {span : Span} {rest : List Statement} {memory after : Memory σ} {stop : Stop}
      (stopped : initialValue environment initial memory = .error stop after) :
      Executes environment (.declare type name initial span :: rest) memory (.error stop after)
  | evaluated {value : Expression} {rest : List Statement} {memory after : Memory σ}
      {result : Int64} {outcome : Outcome σ}
      (computed : evaluate environment value memory = .ok result after)
      (following : Executes environment rest after outcome) :
      Executes environment (.evaluate value :: rest) memory outcome
  | evaluationStopped {value : Expression} {rest : List Statement} {memory after : Memory σ}
      {stop : Stop} (stopped : evaluate environment value memory = .error stop after) :
      Executes environment (.evaluate value :: rest) memory (.error stop after)
  | chosen {condition : Expression} {whenTrue whenFalse rest : List Statement}
      {memory tested inner : Memory σ} {value : Int64} {outcome : Outcome σ}
      (computed : evaluate environment condition memory = .ok value tested)
      (branch : Executes environment (if value = 0 then whenFalse else whenTrue) tested.enter
        (.ok .normal inner))
      (following : Executes environment rest inner.leave outcome) :
      Executes environment (.choose condition whenTrue whenFalse :: rest) memory outcome
  | branchBroke {condition : Expression} {whenTrue whenFalse rest : List Statement}
      {memory tested : Memory σ} {value : Int64} {outcome : Outcome σ}
      (computed : evaluate environment condition memory = .ok value tested)
      (branch : Executes environment (if value = 0 then whenFalse else whenTrue) tested.enter
        outcome)
      (breaks : outcome.Breaks) :
      Executes environment (.choose condition whenTrue whenFalse :: rest) memory outcome.leave
  | choiceStopped {condition : Expression} {whenTrue whenFalse rest : List Statement}
      {memory after : Memory σ} {stop : Stop}
      (stopped : evaluate environment condition memory = .error stop after) :
      Executes environment (.choose condition whenTrue whenFalse :: rest) memory
        (.error stop after)
  | loopEnded {condition : Expression} {body rest : List Statement}
      {memory tested : Memory σ} {outcome : Outcome σ}
      (computed : evaluate environment condition memory = .ok 0 tested)
      (following : Executes environment rest tested outcome) :
      Executes environment (.loop condition body :: rest) memory outcome
  | loopContinued {condition : Expression} {body rest : List Statement}
      {memory tested inner : Memory σ} {value : Int64} {outcome : Outcome σ}
      (computed : evaluate environment condition memory = .ok value tested)
      (holds : value ≠ 0)
      (round : Executes environment body tested.enter (.ok .normal inner))
      (following : Executes environment (.loop condition body :: rest) inner.leave outcome) :
      Executes environment (.loop condition body :: rest) memory outcome
  | roundBroke {condition : Expression} {body rest : List Statement}
      {memory tested : Memory σ} {value : Int64} {outcome : Outcome σ}
      (computed : evaluate environment condition memory = .ok value tested)
      (holds : value ≠ 0)
      (round : Executes environment body tested.enter outcome)
      (breaks : outcome.Breaks) :
      Executes environment (.loop condition body :: rest) memory outcome.leave
  | loopStopped {condition : Expression} {body rest : List Statement}
      {memory after : Memory σ} {stop : Stop}
      (stopped : evaluate environment condition memory = .error stop after) :
      Executes environment (.loop condition body :: rest) memory (.error stop after)
  | left {span : Span} {rest : List Statement} {memory : Memory σ} :
      Executes environment (.leave none span :: rest) memory (.ok (.returned none) memory)
  | leftWith {value : Expression} {span : Span} {rest : List Statement}
      {memory after : Memory σ} {result : Int64}
      (computed : evaluate environment value memory = .ok result after) :
      Executes environment (.leave (some value) span :: rest) memory
        (.ok (.returned (some result)) after)
  | leaveStopped {value : Expression} {span : Span} {rest : List Statement}
      {memory after : Memory σ} {stop : Stop}
      (stopped : evaluate environment value memory = .error stop after) :
      Executes environment (.leave (some value) span :: rest) memory (.error stop after)
  | blockEnded {body rest : List Statement} {memory inner : Memory σ} {outcome : Outcome σ}
      (block : Executes environment body memory.enter (.ok .normal inner))
      (following : Executes environment rest inner.leave outcome) :
      Executes environment (.block body :: rest) memory outcome
  | blockBroke {body rest : List Statement} {memory : Memory σ} {outcome : Outcome σ}
      (block : Executes environment body memory.enter outcome) (breaks : outcome.Breaks) :
      Executes environment (.block body :: rest) memory outcome.leave
  | skipped {rest : List Statement} {memory : Memory σ} {outcome : Outcome σ}
      (following : Executes environment rest memory outcome) :
      Executes environment (.empty :: rest) memory outcome

/-! ## Functions -/

/-- The parameters with their arguments in front of `block`, newest first. Missing
arguments are zero, and surplus ones are dropped. -/
def bindArguments : List Parameter → List Int64 → List (String × Int64) → List (String × Int64)
  | [], _, block => block
  | parameter :: rest, arguments, block =>
    bindArguments rest arguments.tail ((parameter.name, arguments.headD 0) :: block)

/-- The end of a body without its variables. -/
def Outcome.outside : Outcome σ → EStateM.Result Stop (State σ) Flow
  | .ok flow memory => .ok flow memory.state
  | .error stop memory => .error stop memory.state

/-- What a call of a function yields. The body is a block inside that of the
parameters. -/
def Yields (environment : Environment σ) (parameters : List Parameter) (body : List Statement)
    (arguments : List Int64) (state : State σ) (result : EStateM.Result Stop (State σ) Flow) :
    Prop :=
  ∃ outcome : Outcome σ,
    Executes environment body ⟨[[], bindArguments parameters arguments []], state⟩ outcome ∧
      outcome.outside = result

end IncrementalC.Meaning
