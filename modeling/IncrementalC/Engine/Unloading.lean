import IncrementalC.Engine.Execution

/-!
Contract: what happens when a transaction or a library goes away, and how libraries
come.

Owns:
- running at-exit actions;
- removing the code of a transaction, and who depends on it;
- opening and closing libraries.

Does not own: the log, or whether a removal is allowed.
-/

namespace IncrementalC

/-- How opening a library ended. -/
inductive LibraryOpening where
  | success
  | alreadyLoaded
  | error
deriving DecidableEq, Repr

/-- How a removal ended. -/
inductive Unloading where
  | unloaded
  /-- Refused: these transactions use what is to be removed. -/
  | hasDependents (ids : List TransactionId)
  | notFound
  /-- Refused: the library was opened for good. -/
  | permanent
deriving DecidableEq, Repr

namespace Engine

/-! ## At-exit actions -/

/-- Runs actions in order. Generated code that was removed is skipped, and a fault
ends its own action only. -/
def runAtExit (engine : Engine) : List AtExitAction → Except Breakdown Engine
  | [] => .ok engine
  | action :: rest =>
    match action.callback with
    | .native destructor =>
      runAtExit { engine with host.trace := destructor.run engine.host.trace } rest
    | .generated _ address argument =>
      if engine.machine.isLive address.module then
        match engine.runFor .atExit action.owner action.origin address [argument] with
        | .error breakdown => .error breakdown
        | .ok (_, after) => runAtExit after rest
      else
        runAtExit engine rest

/-- Runs the outstanding actions of an owner, newest first, and counts them. -/
def runOwned (engine : Engine) (owner : AtExitOwner) : Except Breakdown (Nat × Engine) :=
  let (actions, rest) := engine.host.atExit.takeOwned owner
  match { engine with host.atExit := rest }.runAtExit actions with
  | .error breakdown => .error breakdown
  | .ok after => .ok (actions.length, after)

/-- Runs all outstanding actions, newest first, and counts them. -/
def runStaticDestructors (engine : Engine) : Except Breakdown (Nat × Engine) :=
  let (actions, rest) := engine.host.atExit.drain
  match { engine with host.atExit := rest }.runAtExit actions with
  | .error breakdown => .error breakdown
  | .ok after => .ok (actions.length, after)

/-! ## Transactions -/

/-- The transactions whose code uses a name that the code of `id` defines. -/
def dependents (engine : Engine) (id : TransactionId) : List TransactionId × Engine :=
  let emitted := engine.emitPending
  match emitted.state? id with
  | some (.emitted _ _ symbols _) =>
    (emitted.states.filterMap fun entry =>
      match entry.2 with
      | .emitted _ _ _ references =>
        if entry.1 ≠ id ∧ (references.any fun name => decide (name ∈ symbols)) then some entry.1
        else none
      | _ => none, emitted)
  | _ => ([], emitted)

def dropCode (engine : Engine) (id : TransactionId) : Engine :=
  let states := engine.states.filter fun entry => entry.1 ≠ id
  let machine := match engine.state? id with
    | some (.emitted module _ _ _) => engine.machine.unload module
    | _ => engine.machine
  { engine with states, machine }.note (.dropped id)

/-- Runs the at-exit actions of a transaction, removes its code, and counts the
actions. -/
def unload (engine : Engine) (id : TransactionId) : Except Breakdown (Nat × Engine) :=
  match engine.runOwned (.transaction id) with
  | .error breakdown => .error breakdown
  | .ok (count, after) => .ok (count, after.dropCode id)

/-! ## Libraries -/

/-- Registers the destructors of a library that was opened. -/
def registerDestructors (engine : Engine) (canonical : String) (handle : LibraryHandle) : Engine :=
  let actions := (engine.host.resolver.loader.destructors handle).map fun destructor =>
    (⟨.native destructor, .library canonical, none⟩ : AtExitAction)
  { engine with host.atExit := actions.foldl AtExitRegistry.register engine.host.atExit }

def loadLibrary (engine : Engine) (files : Files.FileTree) (name : String) (permanent : Bool)
    (searchPaths : List String) : LibraryOpening × Engine :=
  match engine.host.resolver.loader.locate? files name searchPaths with
  | none => (.error, engine)
  | some canonical =>
    if (engine.host.resolver.findLibrary? canonical).isSome then
      (.alreadyLoaded, engine)
    else
      match engine.host.resolver.openLibrary name canonical permanent with
      | .error _ => (.error, engine)
      | .ok (handle, resolver) =>
        let opened := { engine with host.resolver := resolver }.registerDestructors canonical handle
        (.success,
          { opened with
            loadedFiles := opened.loadedFiles ++ [⟨canonical, .dynamicLibrary, some handle⟩] })

/-- The canonical name of an open library. -/
def libraryName? (engine : Engine) (name : String) : Option String :=
  (engine.host.resolver.findLibrary? name).map Prod.fst

/-- Runs the at-exit actions of a library and closes it. -/
def unloadLibrary (engine : Engine) (name : String) : Except Breakdown (Unloading × Engine) :=
  match engine.host.resolver.findLibrary? name with
  | none => .ok (.notFound, engine)
  | some (canonical, library) =>
    if library.permanent then
      .ok (.permanent, engine)
    else
      match engine.runOwned (.library canonical) with
      | .error breakdown => .error breakdown
      | .ok (_, after) =>
        .ok (.unloaded,
          { after with host.resolver := (after.host.resolver.closeLibrary canonical).2 })

end Engine

end IncrementalC
