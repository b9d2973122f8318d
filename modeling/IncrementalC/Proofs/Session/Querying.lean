import IncrementalC.Proofs.Engine.Querying
import IncrementalC.Proofs.Session.Performing

/-!
Contract: asking where a name is defined changes nothing else.

A query generates the code that waits. A run with queries put in is compared with the run without
them, operation by operation: one session is always ahead of the other with generating code, and
agrees with it in everything else.

Owns: sessions of which one is ahead, that every operation answers alike in both, and runs with
queries put in.

Does not own: how engines that are ahead go on.
-/

namespace IncrementalC.Session

/-! ## How two computations end -/

/-- The computations break down alike, or end with the same result, and then `afterwards` holds. -/
def BothEnd {α : Type} (first second : Except Breakdown (α × Session))
    (afterwards : α → Session → Session → Prop) : Prop :=
  EndAlike (fun ended otherEnded =>
    otherEnded.1 = ended.1 ∧ afterwards ended.1 ended.2 otherEnded.2) first second

section

variable {α β : Type} {session other : Session} {afterwards : β → Session → Session → Prop}

theorem bothEnd_pure {value : β} (holds : afterwards value session other) :
    BothEnd ((pure value : Step β) session) ((pure value : Step β) other) afterwards :=
  .done ⟨rfl, holds⟩

theorem bothEnd_bind {step otherStep : Step α} {next otherNext : α → Step β}
    (first : BothEnd (step session) (otherStep other) fun value between otherBetween =>
      BothEnd (next value between) (otherNext value otherBetween) afterwards) :
    BothEnd ((step >>= next) session) ((otherStep >>= otherNext) other) afterwards := by
  change BothEnd (step session >>= fun finished => next finished.1 finished.2)
    (otherStep other >>= fun finished => otherNext finished.1 finished.2) afterwards
  obtain ⟨breakdown, ran, otherRan⟩ | ⟨⟨_, _⟩, ⟨_, _⟩, ran, otherRan, rfl, rest⟩ := first.cases
  · rw [ran, otherRan]
    exact .broken breakdown
  · rw [ran, otherRan]
    exact rest

theorem bothEnd_map {step otherStep : Step α} {view : α → β}
    (first : BothEnd (step session) (otherStep other) fun value after otherAfter =>
      afterwards (view value) after otherAfter) :
    BothEnd ((view <$> step) session) ((view <$> otherStep) other) afterwards := by
  change BothEnd (step session >>= fun finished => .ok (view finished.1, finished.2))
    (otherStep other >>= fun finished => .ok (view finished.1, finished.2)) afterwards
  obtain ⟨breakdown, ran, otherRan⟩ | ⟨⟨_, _⟩, ⟨_, _⟩, ran, otherRan, rfl, rest⟩ := first.cases
  · rw [ran, otherRan]
    exact .broken breakdown
  · rw [ran, otherRan]
    exact .done ⟨rfl, rest⟩

theorem bothEnd_get_bind {next otherNext : Session → Step β}
    (rest : BothEnd (next session session) (otherNext other other) afterwards) :
    BothEnd ((get >>= next) session) ((get >>= otherNext) other) afterwards := rest

theorem bothEnd_set_bind {changed otherChanged : Session} {next otherNext : PUnit → Step β}
    (rest : BothEnd (next ⟨⟩ changed) (otherNext ⟨⟩ otherChanged) afterwards) :
    BothEnd ((set changed >>= next) session) ((set otherChanged >>= otherNext) other)
      afterwards := rest

theorem bothEnd_modify {change otherChange : Session → Session}
    {afterwards : PUnit → Session → Session → Prop}
    (holds : afterwards ⟨⟩ (change session) (otherChange other)) :
    BothEnd ((modify change : Step PUnit) session) ((modify otherChange : Step PUnit) other)
      afterwards :=
  .done ⟨rfl, holds⟩

theorem bothEnd_modifyGet {change otherChange : Session → β × Session}
    (same : (otherChange other).1 = (change session).1)
    (holds : afterwards (change session).1 (change session).2 (otherChange other).2) :
    BothEnd ((modifyGet change : Step β) session) ((modifyGet otherChange : Step β) other)
      afterwards :=
  .done ⟨same, holds⟩

theorem withEngine_eq (computation : Engine → Except Breakdown (β × Engine)) (session : Session) :
    withEngine computation session = (computation session.engine).map fun ended =>
      (ended.1, { session with engine := ended.2 }) := by
  change ((computation session.engine >>= fun finished => .ok (finished, session)) >>=
    fun finished => .ok (finished.1.1, { session with engine := finished.1.2 })) = _
  cases computation session.engine <;> rfl

theorem bothEnd_withEngine {computation : Engine → Except Breakdown (β × Engine)}
    {related : Engine → Engine → Prop}
    (alike : EndAlike (SameResult related) (computation session.engine)
      (computation other.engine))
    (holds : ∀ result engine otherEngine, computation session.engine = .ok (result, engine) →
      related engine otherEngine →
      afterwards result { session with engine } { other with engine := otherEngine }) :
    BothEnd (withEngine computation session) (withEngine computation other) afterwards := by
  rw [withEngine_eq, withEngine_eq]
  obtain ⟨breakdown, ran, otherRan⟩ | ⟨result, engine, otherEngine, ran, otherRan, after⟩ :=
    alike.results
  · rw [ran, otherRan]
    exact .broken breakdown
  · rw [ran, otherRan]
    exact .done ⟨rfl, holds result engine otherEngine ran after⟩

theorem bothEnd_guardMisuse {result : Except Misuse β}
    (holds : ∀ value, result = .ok value → afterwards value session other) :
    BothEnd (guardMisuse result session) (guardMisuse result other) afterwards := by
  cases result with
  | ok value => exact bothEnd_pure (holds value rfl)
  | error misuse => exact .broken _

theorem BothEnd.mono {first second : Except Breakdown (β × Session)}
    {weaker : β → Session → Session → Prop} (ends : BothEnd first second afterwards)
    (weakens : ∀ value after otherAfter, first = .ok (value, after) →
      afterwards value after otherAfter → weaker value after otherAfter) :
    BothEnd first second weaker :=
  EndAlike.mono ends fun ended _ ran holds =>
    ⟨holds.1, weakens ended.1 ended.2 _ ran holds.2⟩

end

/-- The engine has no say in whether an observer is told. -/
theorem notify_cases (session : Session) (notification : Notification) :
    (∀ engine : Engine, { session with engine }.notify notification = { session with engine }) ∨
      ∀ engine : Engine, { session with engine }.notify notification =
        { session with engine := engine.record (.notified notification) } := by
  unfold notify
  dsimp only
  cases session.observer with
  | none => exact .inl fun _ => rfl
  | some observer =>
    cases hears : observer.hears notification with
    | true => exact .inr fun _ => if_pos hears
    | false => exact .inl fun _ => if_neg (hears ▸ Bool.false_ne_true)

/-- The code that is still to be handed over is newer than all other. -/
theorem Committed.newest {session : Session} {id : TransactionId}
    (committed : session.Committed id) :
    ∀ entry ∈ session.engine.states, entry.1.number < id.number := by
  intro entry member
  refine committed.newer _ (committed.engine.tracked _ ?_)
  rw [Engine.state?_eq_find, Ne, CodeStates.find_eq_none_iff]
  exact fun absent => absent entry member rfl

/-! ## Sessions of which one is ahead -/

/-- Sound sessions that agree, except that the other one is ahead with generating code. -/
inductive Beside (create : FunctionCreator) (session : Session) : Session → Prop where
  | intro {engine : Engine} (sound : session.Sound) (ahead : session.engine.Ahead create engine) :
      Beside create session { session with engine }

namespace Beside

variable {create : FunctionCreator} {session other : Session}

theorem sound (beside : session.Beside create other) : session.Sound := by
  cases beside with
  | intro sound ahead => exact sound

theorem ahead (beside : session.Beside create other) :
    session.engine.Ahead create other.engine := by
  cases beside with
  | intro sound ahead => exact ahead

theorem config_eq (beside : session.Beside create other) : other.config = session.config := by
  cases beside with
  | intro sound ahead => rfl

theorem log_eq (beside : session.Beside create other) : other.log = session.log := by
  cases beside with
  | intro sound ahead => rfl

theorem compiler_eq (beside : session.Beside create other) :
    other.compiler = session.compiler := by
  cases beside with
  | intro sound ahead => rfl

theorem buffer_eq (beside : session.Beside create other) : other.buffer = session.buffer := by
  cases beside with
  | intro sound ahead => rfl

theorem provider_eq (beside : session.Beside create other) :
    other.provider = session.provider := by
  cases beside with
  | intro sound ahead => rfl

theorem files_eq (beside : session.Beside create other) : other.files = session.files := by
  cases beside with
  | intro sound ahead => rfl

/-- Both have asked for the same definitions. -/
theorem definitionsRequested_eq (beside : session.Beside create other) :
    other.engine.host.trace.definitionsRequested =
      session.engine.host.trace.definitionsRequested := by
  rw [← Trace.definitionsRequested_effects, beside.ahead.host.effects,
    Trace.definitionsRequested_effects]

theorem isContinuing_eq (beside : session.Beside create other) :
    other.isContinuing = session.isContinuing := by
  cases beside with
  | intro sound ahead => rfl

/-- What was buffered is dropped. -/
theorem unbuffered (beside : session.Beside create other) :
    Beside create { session with buffer := none } { other with buffer := none } := by
  cases beside with
  | intro sound ahead => exact .intro (sound.of_same rfl rfl rfl) ahead

theorem withEngine {α : Type} (beside : session.Beside create other)
    {computation : Engine → Except Breakdown (α × Engine)}
    (alike : EndAlike (SameResult (Engine.Ahead create)) (computation session.engine)
      (computation other.engine))
    (succeeds : ∀ result engine, computation session.engine = .ok (result, engine) →
      session.engine.Succeeds engine) :
    BothEnd (Session.withEngine computation session) (Session.withEngine computation other)
      fun _ => Beside create := by
  apply bothEnd_withEngine alike
  intro result engine otherEngine ran after
  cases beside with
  | intro sound ahead => exact .intro (sound.withEngine (succeeds result engine ran)) after

theorem notify (beside : session.Beside create other) (notification : Notification) :
    (session.notify notification).Beside create (other.notify notification) := by
  have told := beside.sound.notify notification
  cases beside with
  | @intro engine sound ahead =>
    rcases notify_cases session notification with silent | tells
    · have unchanged : session.notify notification = session := silent session.engine
      rw [unchanged, silent engine]
      exact .intro sound ahead
    · have recorded : session.notify notification =
          { session with engine := session.engine.record (.notified notification) } :=
        tells session.engine
      rw [recorded] at told ⊢
      rw [tells engine]
      exact .intro told (ahead.record _)

/-! ## Compiling and running -/

/-- What is accepted goes on with its code being handed to both engines. -/
theorem compile_bothEnd (beside : session.Beside create other) (request : CompileRequest) :
    BothEnd (compile request session) (compile request other) fun report after otherAfter =>
      (report.verdict = .success →
        BothEnd (trackCommitted report.transaction after)
          (trackCommitted report.transaction otherAfter) fun _ => Beside create) ∧
      (report.verdict ≠ .success → after.Beside create otherAfter) := by
  cases beside with
  | intro sound ahead =>
    unfold compile
    apply bothEnd_get_bind
    apply bothEnd_bind
    apply bothEnd_guardMisuse
    rintro ⟨report, compiler, log⟩ compiled
    apply bothEnd_set_bind
    refine bothEnd_pure ⟨?_, fun refused => .intro ((sound.compiled compiled).2 refused) ahead⟩
    intro accepted
    obtain ⟨transaction, own, newest, handed⟩ := sound.exists_newest compiled accepted
    have committed := (sound.compiled compiled).1 accepted
    rw [← own] at committed ⊢
    have newer : ∀ entry ∈ session.engine.states, entry.1.number < transaction.id.number :=
      committed.newest
    apply bothEnd_modify
    dsimp only
    rw [newest.found]
    exact notify (.intro handed (ahead.track transaction _ newer)) _

theorem abandonOpen_bothEnd (beside : session.Beside create other) :
    BothEnd (abandonOpen session) (abandonOpen other) fun _ => Beside create := by
  cases beside with
  | intro sound ahead => exact bothEnd_modify (.intro sound.abandonOpen ahead)

theorem emitAndRun_bothEnd (beside : session.Beside create other) (id : TransactionId)
    (entry : Option String) :
    BothEnd (emitAndRun id entry session) (emitAndRun id entry other) fun _ => Beside create := by
  unfold emitAndRun
  apply bothEnd_get_bind
  cases beside with
  | intro sound ahead =>
    exact withEngine (.intro sound ahead) (ahead.emitAndRun _ id entry)
      fun _ _ ran => Engine.emitAndRun_succeeds sound.engine ran

theorem requestDefinitions_bothEnd (beside : session.Beside create other)
    (provider : DefinitionProvider) (names : List String) :
    BothEnd (requestDefinitions provider names session) (requestDefinitions provider names other)
      fun _ => Beside create := by
  unfold requestDefinitions
  apply bothEnd_get_bind
  rw [beside.definitionsRequested_eq]
  apply bothEnd_bind
  apply bothEnd_modify
  apply bothEnd_pure
  induction names generalizing session other with
  | nil =>
    cases beside with
    | intro sound ahead => exact .intro sound ahead
  | cons name rest inductionHypothesis =>
    cases beside with
    | intro sound ahead =>
      have next : Beside create
          { session with engine := session.engine.record (.definitionRequested name) } _ :=
        .intro (sound.withHost _ _ rfl) (ahead.record (.definitionRequested name))
      exact inductionHypothesis next

theorem declareDefinition_bothEnd (beside : session.Beside create other) (name source : String) :
    BothEnd (declareDefinition name source session) (declareDefinition name source other)
      fun _ => Beside create := by
  unfold declareDefinition
  apply bothEnd_get_bind
  rw [beside.compiler_eq]
  apply bothEnd_bind
  refine (beside.compile_bothEnd _).mono ?_
  rintro report after otherAfter - ⟨tracks, refused⟩
  cases verdict : report.verdict with
  | success =>
    apply bothEnd_bind
    exact (tracks verdict).mono fun _ _ _ _ final => bothEnd_pure final
  | moreInputExpected =>
    rw [verdict] at refused
    apply bothEnd_bind
    exact (abandonOpen_bothEnd (refused nofun)).mono fun _ _ _ _ final => bothEnd_pure final
  | failure =>
    rw [verdict] at refused
    exact bothEnd_pure (refused nofun)

theorem declareDefinitions_bothEnd (beside : session.Beside create other)
    (definitions : List (String × String)) :
    BothEnd (declareDefinitions definitions session) (declareDefinitions definitions other)
      fun _ => Beside create := by
  induction definitions generalizing session other with
  | nil => exact bothEnd_pure beside
  | cons definition rest inductionHypothesis =>
    unfold declareDefinitions
    apply bothEnd_bind
    refine (beside.declareDefinition_bothEnd definition.1 definition.2).mono ?_
    intro declared between otherBetween _ begun
    apply bothEnd_bind
    exact (inductionHypothesis begun).mono fun _ _ _ _ final => bothEnd_pure final

theorem runWithDefinitions_bothEnd (beside : session.Beside create other) (id : TransactionId)
    (entry : Option String) :
    BothEnd (runWithDefinitions id entry session) (runWithDefinitions id entry other)
      fun _ => Beside create := by
  unfold runWithDefinitions
  apply bothEnd_bind
  refine (beside.emitAndRun_bothEnd id entry).mono ?_
  intro execution between otherBetween _ begun
  split
  · apply bothEnd_get_bind
    rw [begun.provider_eq]
    cases between.provider with
    | none => exact bothEnd_pure begun
    | some provider =>
      apply bothEnd_bind
      refine (begun.requestDefinitions_bothEnd provider _).mono ?_
      intro definitions asked otherAsked _ asking
      apply bothEnd_bind
      refine (asking.declareDefinitions_bothEnd definitions).mono ?_
      intro declared supplied otherSupplied _ supplying
      split
      · exact bothEnd_pure supplying
      · exact supplying.emitAndRun_bothEnd id entry
  · exact bothEnd_pure begun

theorem compileAndRun_bothEnd (beside : session.Beside create other) (text : String)
    (options : TransactionOptions) (entry : Option String) :
    BothEnd (compileAndRun text options entry session) (compileAndRun text options entry other)
      fun _ => Beside create := by
  unfold compileAndRun
  apply bothEnd_get_bind
  rw [beside.config_eq]
  apply bothEnd_bind
  refine (beside.compile_bothEnd _).mono ?_
  rintro report compiled otherCompiled - ⟨tracks, refused⟩
  cases verdict : report.verdict with
  | failure =>
    rw [verdict] at refused
    exact bothEnd_pure (refused nofun)
  | moreInputExpected =>
    rw [verdict] at refused
    exact bothEnd_pure (refused nofun)
  | success =>
    apply bothEnd_bind
    refine (tracks verdict).mono ?_
    intro _ tracked otherTracked _ tracking
    apply bothEnd_get_bind
    rw [tracking.log_eq]
    cases tracked.log.get? report.transaction with
    | none => exact bothEnd_pure tracking
    | some transaction =>
      dsimp only
      split
      · apply bothEnd_bind
        exact (tracking.runWithDefinitions_bothEnd _ _).mono fun _ _ _ _ final =>
          bothEnd_pure final
      · exact bothEnd_pure tracking

theorem runFunction_bothEnd (beside : session.Beside create other) (name : String) :
    BothEnd (runFunction name session) (runFunction name other) fun _ => Beside create := by
  unfold runFunction
  apply bothEnd_get_bind
  rw [beside.compiler_eq]
  cases session.compiler.checker.functionInfo? name with
  | none => exact bothEnd_pure beside
  | some info =>
    dsimp only
    split
    · exact bothEnd_pure beside
    · cases info.definition with
      | none => exact bothEnd_pure beside
      | some definition =>
        dsimp only
        have runs := beside.runWithDefinitions_bothEnd definition (some name)
        -- Code that shows differently waits in one session and is generated in the other.
        have ripens := beside.ahead.status?_ripens definition
        generalize session.engine.status? definition = status,
          other.engine.status? definition = otherStatus at ripens ⊢
        cases ripens with
        | none => exact bothEnd_pure beside
        | @some shown otherShown ripens =>
          cases ripens with
          | emitted => exact runs
          | failed => exact runs
          | same =>
            cases shown with
            | excluded => exact bothEnd_pure beside
            | pending => exact runs
            | emitted initialized => exact runs
            | failed => exact runs

/-! ## Submitted input -/

theorem wrapInput_bothEnd (beside : session.Beside create other) (mode : InputMode)
    (text : String) :
    BothEnd (wrapInput mode text session) (wrapInput mode text other) fun _ => Beside create := by
  unfold wrapInput
  apply bothEnd_get_bind
  cases beside with
  | intro sound ahead =>
    apply bothEnd_set_bind
    exact bothEnd_pure (.intro (sound.of_same rfl rfl rfl) ahead)

theorem echoValue_bothEnd (beside : session.Beside create other) (mode : InputMode)
    (value : Option Value) :
    BothEnd (echoValue mode value session) (echoValue mode value other) fun _ => Beside create := by
  unfold echoValue
  split
  · cases beside with
    | intro sound ahead => exact bothEnd_modify (.intro (sound.of_same rfl rfl rfl) ahead)
  · exact bothEnd_pure beside

theorem runWrapped_bothEnd (beside : session.Beside create other) (mode : InputMode)
    (text : String) :
    BothEnd (runWrapped mode text session) (runWrapped mode text other) fun _ => Beside create := by
  unfold runWrapped
  apply bothEnd_bind
  refine (beside.wrapInput_bothEnd mode text).mono ?_
  intro wrapped between otherBetween _ begun
  apply bothEnd_bind
  refine (begun.compileAndRun_bothEnd _ _ _).mono ?_
  intro compiled ran otherRan _ running
  dsimp only
  split
  · apply bothEnd_bind
    refine running.abandonOpen_bothEnd.mono ?_
    intro _ abandoned otherAbandoned _ abandoning
    apply bothEnd_bind
    apply bothEnd_pure
    apply bothEnd_bind
    exact (abandoning.echoValue_bothEnd mode _).mono fun _ _ _ _ final => bothEnd_pure final
  · apply bothEnd_bind
    apply bothEnd_pure
    apply bothEnd_bind
    exact (running.echoValue_bothEnd mode _).mono fun _ _ _ _ final => bothEnd_pure final

theorem submitWrapped_bothEnd (beside : session.Beside create other) (mode : InputMode)
    (text : String) :
    BothEnd (submitWrapped mode text session) (submitWrapped mode text other)
      fun _ => Beside create := by
  unfold submitWrapped
  apply bothEnd_get_bind
  cases beside with
  | intro sound ahead =>
    have beside := Beside.intro sound ahead
    dsimp only
    split
    · exact beside.compileAndRun_bothEnd _ _ _
    · split
      · exact beside.runWrapped_bothEnd mode text
      · apply bothEnd_set_bind
        exact bothEnd_pure (.intro (sound.of_same rfl rfl rfl) ahead)

theorem submit_bothEnd (beside : session.Beside create other) (mode : InputMode)
    (text : String) :
    BothEnd (submit mode text session) (submit mode text other) fun _ => Beside create := by
  unfold submit
  apply bothEnd_get_bind
  rw [beside.buffer_eq]
  cases session.buffer with
  | some buffered =>
    apply bothEnd_set_bind
    exact beside.unbuffered.submitWrapped_bothEnd buffered.mode _
  | none =>
    dsimp only
    rw [beside.compiler_eq]
    split
    · exact beside.compileAndRun_bothEnd _ _ _
    · cases mode with
      | declare => exact beside.compileAndRun_bothEnd _ _ _
      | headerOnly => exact beside.compileAndRun_bothEnd _ _ _
      | evaluate => exact beside.submitWrapped_bothEnd _ _
      | echo => exact beside.submitWrapped_bothEnd _ _
      | execute => exact beside.submitWrapped_bothEnd _ _

theorem process_bothEnd (beside : session.Beside create other) (text : String) :
    BothEnd (process text session) (process text other) fun _ => Beside create := by
  unfold process
  apply bothEnd_get_bind
  rw [beside.isContinuing_eq, beside.config_eq]
  split
  · exact beside.submit_bothEnd _ _
  · split
    · exact beside.submit_bothEnd _ _
    · exact beside.submit_bothEnd _ _

theorem cancelContinuation_bothEnd (beside : session.Beside create other) :
    BothEnd (cancelContinuation session) (cancelContinuation other) fun _ => Beside create := by
  unfold cancelContinuation
  apply bothEnd_bind
  apply bothEnd_modify
  exact beside.unbuffered.abandonOpen_bothEnd

/-! ## Loading and unloading -/

theorem loadLibrary_bothEnd (beside : session.Beside create other) (name : String)
    (permanent : Bool) :
    BothEnd (loadLibrary name permanent session) (loadLibrary name permanent other)
      fun _ => Beside create := by
  cases beside with
  | @intro otherEngine sound ahead =>
    obtain ⟨same, opened⟩ := ahead.loadLibrary session.files name permanent
      session.config.librarySearchPaths
    have succeeds := Engine.loadLibrary_succeeds sound.engine session.files name permanent
      session.config.librarySearchPaths
    have files := opened.loadedFiles
    apply bothEnd_modifyGet
    · dsimp only
      rw [same, files]
      split <;> rfl
    · dsimp only
      rw [same, files]
      have after := Beside.intro (sound.withEngine succeeds) opened
      split
      · exact after.notify _
      · exact after

theorem unloadLibrary_bothEnd (beside : session.Beside create other) (name : String) :
    BothEnd (unloadLibrary name session) (unloadLibrary name other) fun _ => Beside create := by
  unfold unloadLibrary
  apply bothEnd_get_bind
  rw [beside.ahead.libraryName?_eq]
  apply bothEnd_bind
  refine (beside.withEngine (beside.ahead.unloadLibrary name) fun _ _ ran =>
    Engine.unloadLibrary_succeeds beside.sound.engine ran).mono ?_
  intro result after otherAfter _ closed
  cases result with
  | unloaded =>
    cases session.engine.libraryName? name with
    | none => exact bothEnd_pure closed
    | some canonical =>
      apply bothEnd_bind
      apply bothEnd_modify
      exact bothEnd_pure (closed.notify _)
  | _ => exact bothEnd_pure closed

theorem loadSource_bothEnd (beside : session.Beside create other) (name text : String) :
    BothEnd (loadSource name text session) (loadSource name text other) fun _ => Beside create := by
  unfold loadSource
  apply bothEnd_bind
  refine (beside.compileAndRun_bothEnd _ _ _).mono ?_
  intro outcome compiled otherCompiled _ compiling
  cases outcome.verdict with
  | success =>
    apply bothEnd_bind
    apply bothEnd_modify
    cases compiling with
    | intro sound ahead =>
      exact bothEnd_pure (.intro (sound.withHost _ _ rfl) (ahead.withFile ⟨name, .source, none⟩))
  | moreInputExpected =>
    apply bothEnd_bind
    exact compiling.abandonOpen_bothEnd.mono fun _ _ _ _ final => bothEnd_pure final
  | failure => exact bothEnd_pure compiling

theorem loadFile_bothEnd (beside : session.Beside create other) (path : String)
    (allowsSharedObject : Bool) :
    BothEnd (loadFile path allowsSharedObject session) (loadFile path allowsSharedObject other)
      fun _ => Beside create := by
  unfold loadFile
  split
  · apply bothEnd_bind
    refine (beside.loadLibrary_bothEnd path false).mono ?_
    intro opening after otherAfter _ final
    cases opening <;> exact bothEnd_pure final
  · apply bothEnd_get_bind
    rw [beside.files_eq, beside.ahead.loadedFiles]
    split
    · exact bothEnd_pure beside
    · cases session.files.readText? path with
      | none => exact bothEnd_pure beside
      | some text => exact beside.loadSource_bothEnd _ text

theorem removeTransaction_bothEnd (sound : session.Sound) {engine : Engine}
    (alike : session.engine.Alike create engine) (settled : session.engine.Settled)
    (id : TransactionId) :
    BothEnd (removeTransaction id session) (removeTransaction id { session with engine })
      fun _ => Beside create := by
  unfold removeTransaction
  apply bothEnd_bind
  apply bothEnd_withEngine (alike.unload settled id)
  intro count after otherAfter ran left
  apply bothEnd_bind
  apply bothEnd_modify
  apply bothEnd_pure
  have removed := sound.remove (Engine.unload_drops sound.engine ran)
  unfold remove at removed
  dsimp only
  rcases unloads : session.compiler.unload session.log id with ⟨forgotten, compiler, log⟩
  rw [unloads] at removed
  have beside := Beside.intro removed left.ahead
  cases forgotten with
  | none => exact beside
  | some transaction => exact beside.notify _

/-- Whether a transaction is in use is asked once all code is generated. -/
theorem unloadTransaction_bothEnd (beside : session.Beside create other) (id : TransactionId) :
    BothEnd (unloadTransaction id session) (unloadTransaction id other) fun _ => Beside create := by
  unfold unloadTransaction
  apply bothEnd_get_bind
  cases beside with
  | @intro otherEngine sound ahead =>
    have asks : EndAlike (SameResult (Engine.Alike create))
        (.ok (session.engine.dependents id)) (.ok (otherEngine.dependents id)) :=
      .done (ahead.dependents id)
    dsimp only
    split
    · apply bothEnd_bind
      apply bothEnd_withEngine asks
      intro dependents engine otherEngine told generated
      have generates : session.engine.emitPending = engine :=
        (session.engine.dependents_eq id).symm.trans (congrArg Prod.snd (Except.ok.inj told))
      subst generates
      have generating := sound.withEngine sound.engine.emitPending
      split
      · exact bothEnd_pure (.intro generating generated.ahead)
      · exact removeTransaction_bothEnd generating generated
          (Engine.settled_emitPending sound.engine.wellFormed) id
    · exact bothEnd_pure (.intro sound ahead)

theorem unloadLast_bothEnd (beside : session.Beside create other) :
    BothEnd (unloadLast session) (unloadLast other) fun _ => Beside create := by
  unfold unloadLast
  apply bothEnd_get_bind
  rw [beside.log_eq]
  cases session.log.last? with
  | none => exact bothEnd_pure beside
  | some transaction => exact beside.unloadTransaction_bothEnd transaction.id

/-! ## The rest of the interface -/

theorem addressOf_bothEnd (beside : session.Beside create other) (name : String) :
    BothEnd (addressOf name session) (addressOf name other) fun _ => Beside create := by
  obtain ⟨same, located⟩ := beside.ahead.locate name
  refine beside.withEngine (.done ⟨same, located.ahead⟩) fun result engine told => ?_
  obtain rfl : (session.engine.locate name).2 = engine :=
    congrArg Prod.snd (Except.ok.inj told)
  exact Engine.locate_succeeds beside.sound.engine name

/-- A query that only the other session is asked leaves it ahead. -/
theorem queried (beside : session.Beside create other) (name : String) :
    ∃ location after, addressOf name other = .ok (location, after) ∧
      session.Beside create after := by
  cases beside with
  | intro sound ahead => exact ⟨_, _, rfl, .intro sound (ahead.queried name)⟩

end Beside

/-- No at-exit action reaches a name that only waiting code defines. -/
def ExitsApart (session : Session) : Prop :=
  ∀ action ∈ session.engine.host.atExit, action.Apart session.engine

namespace Beside

variable {create : FunctionCreator} {session other : Session}

theorem runStaticDestructors_bothEnd (beside : session.Beside create other)
    (apart : session.ExitsApart) :
    BothEnd (runStaticDestructors session) (runStaticDestructors other) fun _ => Beside create :=
  beside.withEngine (beside.ahead.runStaticDestructors apart) fun _ _ ran =>
    Engine.runStaticDestructors_succeeds beside.sound.engine ran

theorem finish_bothEnd (beside : session.Beside create other) (apart : session.ExitsApart) :
    BothEnd (finish session) (finish other) fun _ => Beside create := by
  unfold finish
  apply bothEnd_get_bind
  rw [beside.config_eq, beside.ahead.host.atExit]
  split
  · apply bothEnd_bind
    exact (beside.runStaticDestructors_bothEnd apart).mono fun _ _ _ _ final => bothEnd_pure final
  · exact bothEnd_pure beside

end Beside

/-! ## Runs with queries put in -/

/-- The operation installs no other lazy creator. -/
def Operation.CreatesBy (create : FunctionCreator) : Operation → Prop
  | .setCreator creator => creator = create
  | _ => True

theorem Beside.perform_bothEnd {create : FunctionCreator} {session other : Session}
    (beside : session.Beside create other) {operation : Operation}
    (creates : operation.CreatesBy create)
    (apart : operation = .runStaticDestructors → session.ExitsApart) :
    BothEnd (perform operation session) (perform operation other) fun _ => Beside create := by
  cases operation with
  | submit mode text => exact bothEnd_map (beside.submit_bothEnd mode text)
  | process text => exact bothEnd_map (beside.process_bothEnd text)
  | cancelContinuation => exact bothEnd_map beside.cancelContinuation_bothEnd
  | loadFile path allowsSharedObject => exact bothEnd_map (beside.loadFile_bothEnd path _)
  | loadLibrary name permanent => exact bothEnd_map (beside.loadLibrary_bothEnd name permanent)
  | unloadLibrary name => exact bothEnd_map (beside.unloadLibrary_bothEnd name)
  | unload id => exact bothEnd_map (beside.unloadTransaction_bothEnd id)
  | unloadLast => exact bothEnd_map beside.unloadLast_bothEnd
  | runFunction name => exact bothEnd_map (beside.runFunction_bothEnd name)
  | emitAll id => exact bothEnd_map (beside.runWithDefinitions_bothEnd id none)
  | addressOf name => exact bothEnd_map (beside.addressOf_bothEnd name)
  | runStaticDestructors => exact bothEnd_map (beside.runStaticDestructors_bothEnd (apart rfl))
  | createUniqueName =>
    cases beside with
    | intro sound ahead =>
      exact bothEnd_map (bothEnd_modifyGet rfl (.intro (sound.of_same rfl rfl rfl) ahead))
  | addFunction name function =>
    cases beside with
    | intro sound ahead =>
      exact bothEnd_map (bothEnd_modify (.intro (sound.withHost _ _ rfl)
        (ahead.withResolver (ahead.host.resolver.addFunction name function))))
  | setCreator creator =>
    cases beside with
    | intro sound ahead =>
      obtain rfl : creator = create := creates
      exact bothEnd_map (bothEnd_modify (.intro (sound.withHost _ _ rfl)
        (ahead.withResolver ahead.host.resolver.setCreator)))
  | setProvider provider =>
    cases beside with
    | intro sound ahead =>
      exact bothEnd_map (bothEnd_modify (.intro (sound.of_same rfl rfl rfl) ahead))
  | setObserver observer =>
    cases beside with
    | intro sound ahead =>
      exact bothEnd_map (bothEnd_modify (.intro (sound.of_same rfl rfl rfl) ahead))
  | setRawInput raw =>
    cases beside with
    | intro sound ahead =>
      exact bothEnd_map (bothEnd_modify (.intro (sound.of_same rfl rfl rfl) ahead))
  | provideLibrary name library =>
    cases beside with
    | intro sound ahead =>
      apply bothEnd_bind
      apply bothEnd_modify
      exact bothEnd_pure (.intro (sound.withHost _ _ rfl)
        (ahead.withResolver (ahead.host.resolver.provide name library)))
  | changeFiles files =>
    cases beside with
    | intro sound ahead =>
      apply bothEnd_bind
      apply bothEnd_modify
      exact bothEnd_pure (.intro (sound.of_same rfl rfl rfl) ahead)

theorem performAll_cons (operation : Operation) (rest : List Operation) (session : Session) :
    performAll (operation :: rest) session = (perform operation session).bind fun ended =>
      (performAll rest ended.2).map fun others => (ended.1 :: others.1, others.2) := by
  change (perform operation session >>= fun ended => performAll rest ended.2 >>= fun others =>
    .ok (ended.1 :: others.1, others.2)) = _
  cases perform operation session with
  | error breakdown => rfl
  | ok ended =>
    change (performAll rest ended.2 >>= fun others => .ok (ended.1 :: others.1, others.2)) =
      (performAll rest ended.2).map fun others => (ended.1 :: others.1, others.2)
    cases performAll rest ended.2 <;> rfl

/-- A piece of a run with queries: what the run does, or a query that is put in. -/
inductive Asked where
  | own (operation : Operation)
  | query (name : String)

namespace Asked

/-- The run without the queries that are put in. -/
def operations : List Asked → List Operation
  | [] => []
  | .own operation :: rest => operation :: operations rest
  | .query _ :: rest => operations rest

/-- The run with the queries. -/
def withQueries : List Asked → List Operation
  | [] => []
  | .own operation :: rest => operation :: withQueries rest
  | .query name :: rest => .addressOf name :: withQueries rest

/-- The answers of the run with the queries, but for those to the queries that are put in. -/
def answers : List Asked → List Answer → List Answer
  | .own _ :: rest, answer :: more => answer :: answers rest more
  | .query _ :: rest, _ :: more => answers rest more
  | _, _ => []

end Asked

/-- Wherever the operations run the outstanding at-exit actions, these reach no name that only
waiting code defines. -/
def DestructsApart (session : Session) (operations : List Operation) : Prop :=
  ∀ before rest answers reached, operations = before ++ .runStaticDestructors :: rest →
    performAll before session = .ok (answers, reached) → reached.ExitsApart

theorem DestructsApart.next {session between : Session} {operation : Operation}
    {rest : List Operation} {answer : Answer} (apart : session.DestructsApart (operation :: rest))
    (performed : perform operation session = .ok (answer, between)) :
    between.DestructsApart rest := by
  intro before after answers reached split ran
  refine apart (operation :: before) after (answer :: answers) reached ?_ ?_
  · rw [split, List.cons_append]
  · rw [performAll_cons, performed]
    change (performAll before between).map _ = _
    rw [ran]
    rfl

theorem Beside.performAll_endAlike {create : FunctionCreator} {session other : Session}
    {plan : List Asked} (beside : session.Beside create other)
    (creates : ∀ operation ∈ Asked.operations plan, operation.CreatesBy create)
    (apart : session.DestructsApart (Asked.operations plan)) :
    EndAlike (fun ended otherEnded =>
        Asked.answers plan otherEnded.1 = ended.1 ∧ ended.2.Beside create otherEnded.2)
      (performAll (Asked.operations plan) session)
      (performAll (Asked.withQueries plan) other) := by
  induction plan generalizing session other with
  | nil => exact .done ⟨rfl, beside⟩
  | cons asked rest inductionHypothesis =>
    cases asked with
    | query name =>
      obtain ⟨location, after, told, still⟩ := beside.queried name
      have performed : perform (.addressOf name) other = .ok (.location location, after) := by
        change (addressOf name other >>= fun ended => .ok (Answer.location ended.1, ended.2)) = _
        rw [told]
        rfl
      unfold Asked.operations Asked.withQueries
      rw [performAll_cons, performed]
      change EndAlike _ _ ((performAll (Asked.withQueries rest) after).map _)
      rcases (inductionHypothesis still creates apart).cases with
        ⟨breakdown, ran, otherRan⟩ | ⟨ended, otherEnded, ran, otherRan, same, final⟩
      · rw [ran, otherRan]
        exact .broken breakdown
      · rw [ran, otherRan]
        exact .done ⟨same, final⟩
    | own operation =>
      unfold Asked.operations at creates apart ⊢
      unfold Asked.withQueries
      obtain ⟨own, others⟩ := List.forall_mem_cons.mp creates
      have exits : operation = .runStaticDestructors → session.ExitsApart :=
        fun same => apart [] _ [] session (congrArg (· :: _) same) rfl
      rw [performAll_cons, performAll_cons]
      rcases (beside.perform_bothEnd own exits).cases with
        ⟨breakdown, ran, otherRan⟩ | ⟨⟨_, between⟩, ⟨answer, otherBetween⟩, ran, otherRan, rfl,
          begun⟩
      · rw [ran, otherRan]
        exact .broken breakdown
      · rw [ran, otherRan]
        change EndAlike _ ((performAll (Asked.operations rest) between).map _)
          ((performAll (Asked.withQueries rest) otherBetween).map _)
        rcases (inductionHypothesis begun others (apart.next ran)).cases with
          ⟨breakdown, ran, otherRan⟩ | ⟨ended, otherEnded, ran, otherRan, same, final⟩
        · rw [ran, otherRan]
          exact .broken breakdown
        · rw [ran, otherRan]
          exact .done ⟨congrArg (answer :: ·) same, final⟩

/-! ## What is shown -/

/-- The sessions differ in the engine alone, and there in nothing that shows but that waiting code
of the first may be generated in the other. -/
structure ShowsAlike (session other : Session) : Prop where
  others : other = { session with engine := other.engine }
  loadedFiles : other.engine.loadedFiles = session.engine.loadedFiles
  atExit : other.engine.host.atExit = session.engine.host.atExit
  effects : other.engine.host.trace.effects = session.engine.host.trace.effects
  natives : ∀ name,
    other.engine.host.resolver.native? name = session.engine.host.resolver.native? name
  libraries : other.engine.host.resolver.libraries = session.engine.host.resolver.libraries
  locations : ∀ name, (other.engine.locate name).1 = (session.engine.locate name).1
  statuses : ∀ id,
    Option.Rel CodeStatus.Ripens (session.engine.status? id) (other.engine.status? id)

theorem Beside.showsAlike {create : FunctionCreator} {session other : Session}
    (beside : session.Beside create other) : session.ShowsAlike other where
  others := by
    cases beside with
    | intro sound ahead => rfl
  loadedFiles := beside.ahead.loadedFiles
  atExit := beside.ahead.host.atExit
  effects := beside.ahead.host.effects
  natives := beside.ahead.host.resolver.native?_eq
  libraries := beside.ahead.host.resolver.libraries
  locations name := (beside.ahead.locate name).1
  statuses := beside.ahead.status?_ripens

/-- A new session is not behind itself. -/
theorem beside_new (create : FunctionCreator) (config : Config) (source : LibrarySource)
    (files : Files.FileTree) :
    (new config source files).Beside create (new config source files) := by
  have sound := sound_new config source files
  have remembers : (new config source files).engine.host.resolver.Remembers create := ⟨nofun, nofun⟩
  refine .intro sound (Engine.Alike.ahead ⟨rfl, rfl, ?_, rfl, sound.engine.wellFormed.machine, nofun⟩)
  exact ⟨⟨remembers, remembers, rfl, rfl, rfl, rfl⟩, rfl, rfl⟩

/-- Queries of addresses that are put in a run change nothing else: both runs break down alike, or
give the same answers and end in sessions that show the same, and then end alike. The status of
code shows that waiting code was generated, and at-exit actions that reach waiting code without
having it generated are left out. -/
theorem address_queries_are_only_queries {create : FunctionCreator} {config : Config}
    {source : LibrarySource} {files : Files.FileTree} {plan : List Asked}
    (creates : ∀ operation ∈ Asked.operations plan, operation.CreatesBy create)
    (apart : (new config source files).DestructsApart (Asked.operations plan)) :
    EndAlike (fun ended otherEnded =>
        Asked.answers plan otherEnded.1 = ended.1 ∧ ended.2.ShowsAlike otherEnded.2 ∧
        (ended.2.ExitsApart →
          EndAlike (SameResult ShowsAlike) (finish ended.2) (finish otherEnded.2)))
      (performAll (Asked.operations plan) (new config source files))
      (performAll (Asked.withQueries plan) (new config source files)) := by
  have began := beside_new create config source files
  refine (began.performAll_endAlike creates apart).mono ?_
  rintro ended otherEnded - ⟨same, beside⟩
  refine ⟨same, beside.showsAlike, fun exits => ?_⟩
  exact EndAlike.mono (beside.finish_bothEnd exits) fun _ _ _ final =>
    ⟨final.1, final.2.showsAlike⟩

private def sevenForG : FunctionCreator := fun name =>
  if name = "g" then some (.host ⟨⟨0, "g"⟩, fun _ _ => 7⟩) else none

/-- A lazily created function is asked for early, and variables are generated before their use and
before the end. Only the status of the last one tells. -/
theorem queries_show_in_a_status_alone :
    let beginning : List Asked := [.own (.setCreator sevenForG),
      .own (.submit .declare "int g(); int bye(int n) \x7b g(); return 0; \x7d"), .query "g",
      .own (.submit .evaluate "atexit(bye, 1)"), .own (.submit .declare "int x = g();"),
      .query "x", .own (.submit .evaluate "x")]
    let plan := beginning ++ [.own .runStaticDestructors, .own (.submit .declare "int y = 1;"),
      .query "y"]
    let start := new .standard .sharedObjects []
    ∃ answers session otherAnswers other,
      (∀ operation ∈ Asked.operations plan, operation.CreatesBy sevenForG) ∧
      start.DestructsApart (Asked.operations plan) ∧
      performAll (Asked.operations plan) start = .ok (answers, session) ∧
      performAll (Asked.withQueries plan) start = .ok (otherAnswers, other) ∧
      Asked.answers plan otherAnswers = answers ∧ session.ShowsAlike other ∧
      answers[5]? = some (.count 1) ∧ session.engine.host.trace.callsOf ⟨0, "g"⟩ = [[], []] ∧
      session.engine.status? ⟨4⟩ = some .pending ∧
      other.engine.status? ⟨4⟩ = some (.emitted false) := by
  intro beginning plan start
  have facts : ((performAll (Asked.operations beginning) start).toOption.bind fun early =>
      (performAll (Asked.operations plan) start).toOption.bind fun ended =>
        (performAll (Asked.withQueries plan) start).toOption.map fun otherEnded =>
          decide ((∀ entry ∈ early.2.engine.states, entry.2.status ≠ .pending) ∧
            ended.1[5]? = some (.count 1) ∧
            ended.2.engine.host.trace.callsOf ⟨0, "g"⟩ = [[], []] ∧
            ended.2.engine.status? ⟨4⟩ = some .pending ∧
            otherEnded.2.engine.status? ⟨4⟩ = some (.emitted false))) = some true := by
    decide +kernel
  obtain ⟨⟨_, reached⟩, early, facts⟩ := Option.bind_eq_some_iff.mp facts
  obtain ⟨⟨answers, session⟩, performed, facts⟩ := Option.bind_eq_some_iff.mp facts
  obtain ⟨⟨otherAnswers, other⟩, otherPerformed, facts⟩ := Option.map_eq_some_iff.mp facts
  obtain ⟨generated, shown⟩ := of_decide_eq_true facts
  have early := ok_of_toOption early
  have performed := ok_of_toOption performed
  have otherPerformed := ok_of_toOption otherPerformed
  have creates : ∀ operation ∈ Asked.operations plan, operation.CreatesBy sevenForG := by
    unfold plan beginning
    simp [Asked.operations, Operation.CreatesBy]
  have settled : reached.engine.Settled :=
    fun entry member unit waits => generated entry member (by rw [waits]; rfl)
  have apart : start.DestructsApart (Asked.operations plan) := by
    intro before rest _ _ split ran
    have whole : Asked.operations plan = Asked.operations beginning ++
        .runStaticDestructors :: [.submit .declare "int y = 1;"] := rfl
    rw [whole, List.append_cons_inj_of_notMem (by simp [beginning, Asked.operations]) (by simp)]
      at split
    obtain ⟨rfl, -, -⟩ := split
    cases early.symm.trans ran
    exact fun action _ => settled.apart action
  have alike := address_queries_are_only_queries creates apart
  rw [performed, otherPerformed] at alike
  cases alike with
  | done holds =>
    exact ⟨answers, session, otherAnswers, other, creates, apart, performed, otherPerformed,
      holds.1, holds.2.1, shown⟩

/-- Code that waits is shown as such until a query generates it, and an at-exit action that would
call a native function then calls the generated one in its stead. -/
theorem a_query_shows_in_a_status_and_an_action :
    let operations : List Operation := [.addFunction "g" (.host ⟨⟨0, "g"⟩, fun _ _ => 0⟩),
      .submit .declare "int g(); int bye(int n) \x7b g(); return 0; \x7d",
      .submit .evaluate "atexit(bye, 1)", .submit .declare "int g() \x7b return 7; \x7d"]
    let start := new .standard .sharedObjects []
    ∃ answers session otherAnswers other destructed otherDestructed,
      performAll operations start = .ok (answers, session) ∧
      performAll (operations ++ [.addressOf "g"]) start = .ok (otherAnswers, other) ∧
      session.engine.status? ⟨2⟩ = some .pending ∧
      other.engine.status? ⟨2⟩ = some (.emitted false) ∧
      perform .runStaticDestructors session = .ok (.count 1, destructed) ∧
      perform .runStaticDestructors other = .ok (.count 1, otherDestructed) ∧
      destructed.engine.host.trace.callsOf ⟨0, "g"⟩ = [[]] ∧
      otherDestructed.engine.host.trace.callsOf ⟨0, "g"⟩ = [] := by
  intro operations start
  have facts : ((performAll operations start).toOption.bind fun ended =>
      (performAll (operations ++ [.addressOf "g"]) start).toOption.bind fun otherEnded =>
        (perform .runStaticDestructors ended.2).toOption.bind fun destructed =>
          (perform .runStaticDestructors otherEnded.2).toOption.map fun otherDestructed =>
            decide (ended.2.engine.status? ⟨2⟩ = some .pending ∧
              otherEnded.2.engine.status? ⟨2⟩ = some (.emitted false) ∧
              destructed.1 = .count 1 ∧ otherDestructed.1 = .count 1 ∧
              destructed.2.engine.host.trace.callsOf ⟨0, "g"⟩ = [[]] ∧
              otherDestructed.2.engine.host.trace.callsOf ⟨0, "g"⟩ = [])) = some true := by
    decide +kernel
  obtain ⟨⟨answers, session⟩, performed, facts⟩ := Option.bind_eq_some_iff.mp facts
  obtain ⟨⟨otherAnswers, other⟩, otherPerformed, facts⟩ := Option.bind_eq_some_iff.mp facts
  obtain ⟨⟨_, destructed⟩, ran, facts⟩ := Option.bind_eq_some_iff.mp facts
  obtain ⟨⟨_, otherDestructed⟩, otherRan, facts⟩ := Option.map_eq_some_iff.mp facts
  obtain ⟨waits, generated, rfl, rfl, called, silent⟩ := of_decide_eq_true facts
  exact ⟨answers, session, otherAnswers, other, destructed, otherDestructed,
    ok_of_toOption performed, ok_of_toOption otherPerformed, waits, generated,
    ok_of_toOption ran, ok_of_toOption otherRan, called, silent⟩

end IncrementalC.Session
