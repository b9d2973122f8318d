import IncrementalC.Session.Running

/-!
Contract: what becomes of submitted input.

Input that continues unfinished input is joined to it. Declarations are compiled as
they are. Other input is wrapped in a function once it is complete, and run.

Owns: declaring, evaluating, echoing and executing input, choosing between them, and
dropping unfinished input.

Does not own: compiling and running.
-/

namespace IncrementalC.Session

/-- How a mode wraps complete input. -/
def wrapKind (mode : InputMode) (text : String) : Input.WrapKind :=
  match mode with
  | .execute => .statements
  | .declare | .headerOnly | .evaluate | .echo => Input.valueKind text.toList

/-- Wraps input in a function with a name that is not declared. -/
def wrapInput (mode : InputMode) (text : String) : Step Input.WrappedInput := do
  let session ← get
  let (wrapped, names) := Input.wrap session.names text.toList (wrapKind mode text)
    session.compiler.checker.table.liveNames
  set { session with names }
  return wrapped

/-- Prints the value of echoed input. -/
def echoValue (mode : InputMode) (value : Option Value) : Step Unit :=
  match mode, value with
  | .echo, some value => modify fun session =>
    { session with output := session.output.writeLine value.render }
  | _, _ => pure ()

/-- Wraps and runs complete input. Reports are about the user's own text. -/
def runWrapped (mode : InputMode) (text : String) : Step Outcome := do
  let wrapped ← wrapInput mode text
  let compiled ← compileAndRun wrapped.text .execution (some wrapped.entry)
  let remapped :=
    { compiled with
      diagnostics := compiled.diagnostics.map fun diagnostic => diagnostic.remap wrapped.window }
  let outcome ←
    if compiled.verdict = .moreInputExpected then do
      abandonOpen
      pure { remapped with verdict := .failure }
    else
      pure remapped
  echoValue mode outcome.value
  return outcome

/-- Takes input that may have to be wrapped. -/
def submitWrapped (mode : InputMode) (text : String) : Step Outcome := do
  let session ← get
  if session.config.rawInput || !Input.needsWrapping text.toList then
    compileAndRun text .execution none
  else if Input.isComplete text.toList then
    runWrapped mode text
  else
    set { session with buffer := some ⟨mode, text⟩ }
    return .buffered

/-- Takes input. Input that continues a transaction keeps the options that the
transaction was begun with. -/
def submit (mode : InputMode) (text : String) : Step Outcome := do
  let session ← get
  match session.buffer with
  | some buffered =>
    set { session with buffer := none }
    submitWrapped buffered.mode (Input.joinContinuation buffered.text text)
  | none =>
    if session.compiler.opened.isSome then
      compileAndRun text .declaration none
    else
      match mode with
      | .declare => compileAndRun text .declaration none
      | .headerOnly => compileAndRun text .headerOnly none
      | .evaluate | .echo | .execute => submitWrapped mode text

/-- Takes input as declarations or as something to evaluate, whichever it calls for. -/
def process (text : String) : Step Outcome := do
  let session ← get
  if session.isContinuing then
    submit .evaluate text
  else if session.config.rawInput || !Input.needsWrapping text.toList then
    submit .declare text
  else
    submit .evaluate text

/-- Drops unfinished input. -/
def cancelContinuation : Step Unit := do
  modify fun session => { session with buffer := none }
  abandonOpen

end IncrementalC.Session
