import IncrementalC.Host.Trace

/-!
Contract: actions that are due when their owner goes away.

Owns:
- owners, actions and what an action calls;
- the registry of outstanding actions, newest first;
- handing out the actions of one owner, or all of them.

Does not own: running an action.
-/

namespace IncrementalC

/-- What has to go away before an action is due. -/
inductive AtExitOwner where
  | transaction (id : TransactionId)
  | library (name : String)
deriving DecidableEq, Repr

/-- The written form of an owner. -/
def AtExitOwner.render : AtExitOwner → String
  | .transaction id => "transaction " ++ id.render
  | .library name => "library `" ++ name ++ "`"

/-- A routine that a library wants to run before it is closed. -/
structure Destructor where
  label : String
deriving DecidableEq, Repr

/-- Runs a destructor, which shows in the trace. -/
def Destructor.run (destructor : Destructor) (trace : Trace) : Trace :=
  .destructorRan destructor.label :: trace

/-- What an action calls. The address of generated code is bound when the action is
registered; the name only tells what was meant. -/
inductive AtExitCallback where
  | generated (function : String) (address : Address) (argument : Value)
  | native (destructor : Destructor)
deriving DecidableEq, Repr

/-- An outstanding action. -/
structure AtExitAction where
  callback : AtExitCallback
  owner : AtExitOwner
  /-- The declaration whose code registered the action. -/
  origin : Option DeclarationId
deriving DecidableEq, Repr

/-- The outstanding actions, newest first. -/
abbrev AtExitRegistry : Type := List AtExitAction

namespace AtExitRegistry

/-- Adds an action. -/
def register (registry : AtExitRegistry) (action : AtExitAction) : AtExitRegistry :=
  action :: registry

/-- Hands out the actions of one owner, newest first, and keeps the others. -/
def takeOwned (registry : AtExitRegistry) (owner : AtExitOwner) :
    List AtExitAction × AtExitRegistry :=
  (registry.filter fun action => action.owner = owner,
    registry.filter fun action => action.owner ≠ owner)

/-- Hands out all actions, newest first. -/
def drain (registry : AtExitRegistry) : List AtExitAction × AtExitRegistry := (registry, [])

/-- The number of actions that wait for an owner. -/
def pendingFor (registry : AtExitRegistry) (owner : AtExitOwner) : Nat :=
  registry.countP fun action => action.owner = owner

end AtExitRegistry

end IncrementalC
