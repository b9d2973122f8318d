import IncrementalC.Session.Submission

/-!
Contract: loading and unloading in a session.

Owns:
- source files, each loaded once;
- libraries and their notifications;
- unloading transactions under the policy on dependents;
- static destructors, and the end of a session.

Does not own: submitted input.
-/

namespace IncrementalC.Session

/-! ## Libraries -/

def loadLibrary (name : String) (permanent : Bool) : Step LibraryOpening :=
  modifyGet fun session =>
    let (opening, engine) := session.engine.loadLibrary session.files name permanent
      session.config.librarySearchPaths
    let after := { session with engine }
    match opening, engine.loadedFiles.getLast? with
    | .success, some file => (opening, after.notify (.libraryOpened file.name))
    | _, _ => (opening, after)

/-- Closes a library. -/
def unloadLibrary (name : String) : Step Unloading := do
  let canonical := (← get).engine.libraryName? name
  let result ← withEngine fun engine => engine.unloadLibrary name
  match result, canonical with
  | .unloaded, some canonical => modify fun session => session.notify (.libraryClosed canonical)
  | _, _ => pure ()
  return result

/-! ## Files -/

/-- Compiles the text of a source file, which is complete in itself. -/
def loadSource (name text : String) : Step CompileVerdict := do
  let outcome ← compileAndRun text .declaration none
  match outcome.verdict with
  | .success =>
    modify fun session =>
      { session with
        engine.loadedFiles := session.engine.loadedFiles ++ [⟨name, .source, none⟩] }
    return .success
  | .moreInputExpected =>
    abandonOpen
    return .failure
  | .failure => return .failure

/-- Loads a source file or, if allowed, a shared object. A source file that is loaded
already is not loaded again. -/
def loadFile (path : String) (allowsSharedObject : Bool) : Step CompileVerdict := do
  if allowsSharedObject && Files.looksLikeSharedObject path then
    match (← loadLibrary path false) with
    | .error => return .failure
    | .success | .alreadyLoaded => return .success
  else
    let session ← get
    let name := (session.files.canonical? path).getD path
    if (findLoaded? session.engine.loadedFiles name .source).isSome then
      return .success
    else
      match session.files.readText? path with
      | none => return .failure
      | some text => loadSource name text

/-! ## Transactions -/

/-- Runs the at-exit actions of a logged transaction and removes it. -/
def removeTransaction (id : TransactionId) : Step Unloading := do
  let _ ← withEngine fun engine => engine.unload id
  modify fun session =>
    let (removed, compiler, log) := session.compiler.unload session.log id
    let after := { session with compiler, log }
    match removed with
    | none => after
    | some transaction => after.notify (.unloaded transaction)
  return .unloaded

/-- Unloads a transaction, unless the policy keeps it for those that use it. -/
def unloadTransaction (id : TransactionId) : Step Unloading := do
  let session ← get
  if session.log.contains id then
    let dependents ← withEngine fun engine => .ok (engine.dependents id)
    if !dependents.isEmpty && decide (session.config.unloadPolicy = .rejectLiveDependents) then
      return .hasDependents dependents
    else
      removeTransaction id
  else
    return .notFound

/-- Unloads the transaction with the largest number. -/
def unloadLast : Step Unloading := do
  match (← get).log.last? with
  | none => return .notFound
  | some transaction => unloadTransaction transaction.id

/-! ## The rest of the interface -/

/-- Hands out a generated name. -/
def createUniqueName : Step String :=
  modifyGet fun session =>
    let (name, names) := session.names.reserve
    (name, { session with names })

/-- Adds a native function. -/
def addFunction (name : String) (function : NativeFunction) : Step Unit :=
  modify fun session => { session with engine := session.engine.addFunction name function }

/-- Installs the lazy creator of native functions. -/
def setCreator (creator : FunctionCreator) : Step Unit :=
  modify fun session => { session with engine := session.engine.setCreator creator }

/-- Installs the provider of definitions of missing names. -/
def setProvider (provider : DefinitionProvider) : Step Unit :=
  modify fun session => { session with provider := some provider }

/-- Installs an observer, in the stead of an earlier one. -/
def setObserver (observer : Option Observer) : Step Unit :=
  modify fun session => { session with observer }

/-- Wraps no input from now on, or wraps it again. -/
def setRawInput (raw : Bool) : Step Unit :=
  modify fun session => { session with config.rawInput := raw }

/-- Where a name is defined. -/
def addressOf (name : String) : Step (Option Engine.Location) :=
  withEngine fun engine => .ok (engine.locate name)

/-- Runs all outstanding at-exit actions and counts them. -/
def runStaticDestructors : Step Nat :=
  withEngine fun engine => engine.runStaticDestructors

/-- Ends the session. -/
def finish : Step Unit := do
  let session ← get
  if session.config.runsDestructorsOnDrop && !session.engine.host.atExit.isEmpty then
    let _ ← runStaticDestructors
  else
    pure ()

end IncrementalC.Session
