import IncrementalC.Host.Trace
import IncrementalC.Machine.Fault

/-!
Contract: functions that the host process provides.

A host function answers by its arguments and its own earlier calls. A foreign
function is a host function behind a bare address; the address can be null, and it
takes at most four arguments.

Owns: host and foreign functions, and calling them.

Does not own: under which name a function is found.
-/

namespace IncrementalC

/-- A function of the host process. Its answer depends on its earlier calls, newest
first, and on its arguments. -/
structure HostFunction where
  identity : HostIdentity
  respond : (earlier : Unit → List (List Int64)) → (arguments : List Int64) → Int64

/-- The largest number of arguments that a foreign function takes. -/
def foreignArityLimit : Nat := 4

/-- A function that generated code can call by name. -/
inductive NativeFunction where
  | host (function : HostFunction)
  /-- The address of a foreign function holds code, or is null. -/
  | foreign (name : String) (code : Option HostFunction)

/-- Calls a host function and records the call. -/
def HostFunction.call (function : HostFunction) (arguments : List Int64) (trace : Trace) :
    Int64 × Trace :=
  (function.respond (fun _ => trace.callsOf function.identity) arguments,
    .called function.identity arguments :: trace)

/-- Calls a native function. A call that is refused is not recorded. -/
def NativeFunction.call (function : NativeFunction) (arguments : List Int64) (trace : Trace) :
    Except Fault Int64 × Trace :=
  match function with
  | .host function =>
    let (value, after) := function.call arguments trace
    (.ok value, after)
  | .foreign name none => (.error (.unresolved name), trace)
  | .foreign name (some code) =>
    if foreignArityLimit < arguments.length then
      (.error (.nativeArity name arguments.length), trace)
    else
      let (value, after) := code.call arguments trace
      (.ok value, after)

end IncrementalC
