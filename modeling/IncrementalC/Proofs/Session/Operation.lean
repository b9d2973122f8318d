import IncrementalC.Proofs.Token.Continuation
import IncrementalC.Session.Loading

/-!
Contract: everything that can be asked of an interpreter.

Owns: the operations of an interpreter and their answers, performing several of them,
and the rules for what holds when a computation ends.

Does not own: what single operations keep.
-/

namespace IncrementalC.Session

/-- What can be asked of an interpreter, and what may happen around it. -/
inductive Operation where
  | submit (mode : InputMode) (text : String)
  | process (text : String)
  | cancelContinuation
  | loadFile (path : String) (allowsSharedObject : Bool)
  | loadLibrary (name : String) (permanent : Bool)
  | unloadLibrary (name : String)
  | unload (id : TransactionId)
  | unloadLast
  | runFunction (name : String)
  | emitAll (id : TransactionId)
  | addressOf (name : String)
  | runStaticDestructors
  | createUniqueName
  | addFunction (name : String) (function : NativeFunction)
  | setCreator (creator : FunctionCreator)
  | setProvider (provider : DefinitionProvider)
  | setObserver (observer : Option Observer)
  | setRawInput (raw : Bool)
  /-- The catalog gets a library. -/
  | provideLibrary (name : String) (library : Library)
  /-- The files change. -/
  | changeFiles (files : Files.FileTree)

/-- What an interpreter answers. -/
inductive Answer where
  | outcome (outcome : Outcome)
  | verdict (verdict : CompileVerdict)
  | opening (opening : LibraryOpening)
  | unloading (unloading : Unloading)
  | execution (execution : Execution)
  | location (location : Option Engine.Location)
  | count (count : Nat)
  | name (name : String)
  | done
deriving DecidableEq, Repr

/-- Does what is asked. -/
def perform : Operation → Step Answer
  | .submit mode text => Answer.outcome <$> submit mode text
  | .process text => Answer.outcome <$> process text
  | .cancelContinuation => (fun _ => Answer.done) <$> cancelContinuation
  | .loadFile path allowsSharedObject => Answer.verdict <$> loadFile path allowsSharedObject
  | .loadLibrary name permanent => Answer.opening <$> loadLibrary name permanent
  | .unloadLibrary name => Answer.unloading <$> unloadLibrary name
  | .unload id => Answer.unloading <$> unloadTransaction id
  | .unloadLast => Answer.unloading <$> unloadLast
  | .runFunction name => Answer.execution <$> runFunction name
  | .emitAll id => Answer.execution <$> emitAll id
  | .addressOf name => Answer.location <$> addressOf name
  | .runStaticDestructors => Answer.count <$> runStaticDestructors
  | .createUniqueName => Answer.name <$> createUniqueName
  | .addFunction name function => (fun _ => Answer.done) <$> addFunction name function
  | .setCreator creator => (fun _ => Answer.done) <$> setCreator creator
  | .setProvider provider => (fun _ => Answer.done) <$> setProvider provider
  | .setObserver observer => (fun _ => Answer.done) <$> setObserver observer
  | .setRawInput raw => (fun _ => Answer.done) <$> setRawInput raw
  | .provideLibrary name library => do
    modify fun session => { session with engine := session.engine.provideLibrary name library }
    return .done
  | .changeFiles files => do
    modify fun session => { session with files }
    return .done

/-- Does one thing after the other. -/
def performAll : List Operation → Step (List Answer)
  | [] => pure []
  | operation :: rest => do
    let answer ← perform operation
    let answers ← performAll rest
    return answer :: answers

/-- An observer who is told leaves a trace, and nothing else. -/
theorem exists_notify (session : Session) (notification : Notification) :
    ∃ trace, session.notify notification = { session with engine.host.trace := trace } := by
  unfold notify
  split
  · exact ⟨_, rfl⟩
  · split <;> exact ⟨_, rfl⟩

/-! ## How computations end -/

/-- If the computation ends without a breakdown, `afterwards` holds. -/
def Ends {α : Type} (step : Step α) (session : Session) (afterwards : α → Session → Prop) : Prop :=
  ∀ result after, step session = .ok (result, after) → afterwards result after

section

variable {α β : Type} {session : Session} {afterwards : β → Session → Prop}

theorem ends_pure {value : β} (holds : afterwards value session) :
    Ends (pure value) session afterwards := by
  intro result after ended
  cases ended
  exact holds

theorem ends_throw (breakdown : Breakdown) : Ends (throw breakdown) session afterwards :=
  fun _ _ ended => by cases ended

theorem ends_bind {step : Step α} {next : α → Step β}
    (first : Ends step session fun value between => Ends (next value) between afterwards) :
    Ends (step >>= next) session afterwards := by
  intro result after ended
  change (step session >>= fun finished => next finished.1 finished.2) =
    .ok (result, after) at ended
  cases run : step session with
  | error breakdown =>
    rw [run] at ended
    cases ended
  | ok finished =>
    rw [run] at ended
    exact first finished.1 finished.2 run result after ended

theorem ends_map {step : Step α} {view : α → β}
    (first : Ends step session fun value between => afterwards (view value) between) :
    Ends (view <$> step) session afterwards := by
  intro result after ended
  change (step session >>= fun finished => .ok (view finished.1, finished.2)) =
    .ok (result, after) at ended
  cases run : step session with
  | error breakdown =>
    rw [run] at ended
    cases ended
  | ok finished =>
    rw [run] at ended
    cases ended
    exact first finished.1 finished.2 run

theorem ends_get_bind {next : Session → Step β} (rest : Ends (next session) session afterwards) :
    Ends (get >>= next) session afterwards := rest

theorem ends_set_bind {session changed : Session} {next : PUnit → Step β}
    (rest : Ends (next ⟨⟩) changed afterwards) :
    Ends (set changed >>= next) session afterwards := rest

theorem ends_modify {change : Session → Session} {afterwards : PUnit → Session → Prop}
    (holds : afterwards ⟨⟩ (change session)) : Ends (modify change) session afterwards := by
  intro result after ended
  cases ended
  exact holds

theorem ends_modifyGet {change : Session → β × Session}
    (holds : afterwards (change session).1 (change session).2) :
    Ends (modifyGet change) session afterwards := by
  intro result after ended
  have same : change session = (result, after) := Except.ok.inj ended
  rw [same] at holds
  exact holds

theorem ends_withEngine {computation : Engine → Except Breakdown (β × Engine)}
    (holds : ∀ result engine, computation session.engine = .ok (result, engine) →
      afterwards result { session with engine }) :
    Ends (withEngine computation) session afterwards := by
  apply ends_get_bind
  apply ends_bind
  intro finished between ended
  change (computation session.engine >>= fun finished => .ok (finished, session)) =
    .ok (finished, between) at ended
  cases run : computation session.engine with
  | error breakdown =>
    rw [run] at ended
    cases ended
  | ok value =>
    rw [run] at ended
    cases ended
    exact ends_pure (holds finished.1 finished.2 run)

theorem ends_guardMisuse {result : Except Misuse β}
    (holds : ∀ value, result = .ok value → afterwards value session) :
    Ends (guardMisuse result) session afterwards := by
  cases result with
  | ok value => exact ends_pure (holds value rfl)
  | error misuse => exact ends_throw _

theorem ends_compile {request : CompileRequest} {afterwards : CompileReport → Session → Prop}
    (holds : ∀ report compiler log,
      session.compiler.compile session.log request = .ok (report, compiler, log) →
        afterwards report { session with compiler, log }) :
    Ends (compile request) session afterwards := by
  unfold compile
  apply ends_get_bind
  apply ends_bind
  apply ends_guardMisuse
  intro answer answered
  apply ends_set_bind
  exact ends_pure (holds _ _ _ answered)

theorem Ends.mono {step : Step β} {weaker : β → Session → Prop}
    (ends : Ends step session afterwards)
    (weakens : ∀ value after, afterwards value after → weaker value after) :
    Ends step session weaker :=
  fun result after ended => weakens result after (ends result after ended)

end

end IncrementalC.Session
