import IncrementalC.Machine.Address
import IncrementalC.Transaction.Basic
import IncrementalC.Value

/-!
Contract: everything that running code and its interpreter do to the outside.

Owns:
- the notifications that an observer can receive;
- the events of a run, the lines that tell of them, and the trace that records them,
  newest first;
- the calls of one host function in a trace, and the definitions that were asked for.

Does not own: what an event means to whoever reads the trace.
-/

namespace IncrementalC

/-- A change of the program that an observer can be told of. -/
inductive Notification where
  /-- The transaction was added to the log. -/
  | committed (transaction : Transaction)
  /-- The transaction was removed from the log, after its at-exit actions ran. -/
  | unloaded (transaction : Transaction)
  /-- The library was opened under its canonical name. -/
  | libraryOpened (name : String)
  /-- The library was closed, after its at-exit actions ran. -/
  | libraryClosed (name : String)
deriving DecidableEq, Repr

/-- The identity of a host function. Copies of a function share its number. -/
structure HostIdentity where
  number : Nat
  name : String
deriving DecidableEq, Repr

/-- One thing that happened. -/
inductive Event where
  | called (function : HostIdentity) (arguments : List Int64)
  | atExitRegistered (function : String) (address : Address) (argument : Value)
  | destructorRan (label : String)
  /-- A function was asked for that nothing else provides. -/
  | functionRequested (name : String)
  /-- A definition was asked for that the program lacks. -/
  | definitionRequested (name : String)
  | notified (notification : Notification)
deriving DecidableEq, Repr

/-- The line that tells of a change. -/
def Notification.render : Notification → String
  | .committed transaction => "commit " ++ transaction.id.render
  | .unloaded transaction => "unload " ++ transaction.id.render
  | .libraryOpened name => "open " ++ name
  | .libraryClosed name => "close " ++ name

/-- The line that tells of an event. -/
def Event.render : Event → String
  | .called function arguments =>
    "call " ++ function.name ++ "(" ++ String.intercalate "," (arguments.map toString) ++ ")"
  | .atExitRegistered function address argument =>
    "atexit " ++ function ++ " " ++ address.render ++ " " ++ argument.render
  | .destructorRan label => "dtor " ++ label
  | .functionRequested name => "lazy " ++ name
  | .definitionRequested name => "provide " ++ name
  | .notified notification => notification.render

/-- What has happened, newest first. -/
abbrev Trace : Type := List Event

/-- The arguments of the calls of one function, newest first. -/
def Trace.callsOf (function : HostIdentity) (trace : Trace) : List (List Int64) :=
  trace.filterMap fun
    | .called other arguments => if other = function then some arguments else none
    | _ => none

/-- The names of the definitions that were asked for, newest first. -/
def Trace.definitionsRequested (trace : Trace) : List String :=
  trace.filterMap fun
    | .definitionRequested name => some name
    | _ => none

end IncrementalC
