import IncrementalC.Proofs.Compilation.Assertions
import IncrementalC.Proofs.Engine.Breakdown
import IncrementalC.Proofs.Session.Performing

/-!
Contract: an interpreter breaks down in a loop that does not end, if at all.

Every assertion on the way of an operation holds because the session is sound: the open
transaction collects, the log holds committed transactions only, and code stays inside its
frames.

Owns: that every operation comes to its end or to an endless loop, and that the assertions
of the compiler hold between operations and during them.

Does not own: that loops end.
-/

namespace IncrementalC.Session

/-- The computation comes to its end, or to a loop that does not end. -/
def Lasts {α : Type} (step : Step α) (session : Session) : Prop :=
  Completes (step session) fun _ => True

/-! ## Rules -/

section

variable {α β : Type} {session : Session}

theorem lasts_pure (value : β) : Lasts (pure value) session := trivial

theorem lasts_bind {step : Step α} {next : α → Step β} (first : Lasts step session)
    (rest : Ends step session fun value between => Lasts (next value) between) :
    Lasts (step >>= next) session := by
  change Completes (step session >>= fun finished => next finished.1 finished.2) _
  unfold Lasts at first
  cases run : step session with
  | error breakdown =>
    rw [run] at first
    exact first
  | ok finished => exact rest finished.1 finished.2 run

theorem lasts_map {step : Step α} {view : α → β} (first : Lasts step session) :
    Lasts (view <$> step) session := by
  change Completes (step session >>= fun finished => .ok (view finished.1, finished.2)) _
  unfold Lasts at first
  cases run : step session with
  | error breakdown =>
    rw [run] at first
    exact first
  | ok finished => trivial

theorem lasts_get_bind {next : Session → Step β} (rest : Lasts (next session) session) :
    Lasts (get >>= next) session := rest

theorem lasts_set_bind {changed : Session} {next : PUnit → Step β}
    (rest : Lasts (next ⟨⟩) changed) : Lasts (set changed >>= next) session := rest

theorem lasts_modify (change : Session → Session) : Lasts (modify change) session := trivial

theorem lasts_modify_bind {change : Session → Session} {next : PUnit → Step β}
    (rest : Lasts (next ⟨⟩) (change session)) : Lasts (modify change >>= next) session := rest

theorem lasts_modifyGet (change : Session → β × Session) : Lasts (modifyGet change) session :=
  trivial

theorem lasts_withEngine {computation : Engine → Except Breakdown (β × Engine)}
    (completes : Completes (computation session.engine) fun _ => True) :
    Lasts (withEngine computation) session := by
  unfold withEngine
  apply lasts_get_bind
  change Completes ((computation session.engine >>= fun finished => .ok (finished, session)) >>= _) _
  cases run : computation session.engine with
  | error breakdown =>
    rw [run] at completes
    exact completes
  | ok finished => trivial

theorem lasts_engine (computation : Engine → β × Engine) :
    Lasts (withEngine fun engine => .ok (computation engine)) session :=
  lasts_withEngine trivial

end

variable {session : Session}

/-! ## Compiling and running -/

theorem compile_lasts (sound : session.Sound) (request : CompileRequest) :
    Lasts (compile request) session := by
  obtain ⟨report, compiler, log, answered, -⟩ := sound.compiler.compile request
  unfold compile
  apply lasts_get_bind
  rw [answered]
  trivial

theorem emitAndRun_lasts (sound : session.Sound) (id : TransactionId) (entry : Option String) :
    Lasts (emitAndRun id entry) session := by
  unfold emitAndRun
  apply lasts_get_bind
  apply lasts_withEngine
  exact Engine.emitAndRun_completes sound.engine.wellFormed sound.compiler.logged.committed id entry

theorem requestDefinitions_lasts (session : Session) (provider : DefinitionProvider)
    (names : List String) : Lasts (requestDefinitions provider names) session := by
  unfold requestDefinitions
  apply lasts_get_bind
  exact lasts_modify_bind (lasts_pure _)

theorem declareDefinition_lasts (sound : session.Sound) (name source : String) :
    Lasts (declareDefinition name source) session := by
  unfold declareDefinition
  apply lasts_get_bind
  apply lasts_bind (compile_lasts sound _)
  intro report after _
  cases report.verdict with
  | success => exact lasts_modify_bind (lasts_pure _)
  | moreInputExpected => exact lasts_modify_bind (lasts_pure _)
  | failure => exact lasts_pure _

theorem declareDefinitions_lasts (definitions : List (String × String)) (sound : session.Sound) :
    Lasts (declareDefinitions definitions) session := by
  induction definitions generalizing session with
  | nil => exact lasts_pure 0
  | cons definition rest inductionHypothesis =>
    unfold declareDefinitions
    apply lasts_bind (declareDefinition_lasts sound definition.1 definition.2)
    refine (declareDefinition_course sound.course definition.1 definition.2).mono ?_
    intro declared between course
    exact lasts_bind (inductionHypothesis course.sound) fun _ _ _ => lasts_pure _

theorem runWithDefinitions_lasts (sound : session.Sound) (id : TransactionId)
    (entry : Option String) : Lasts (runWithDefinitions id entry) session := by
  unfold runWithDefinitions
  apply lasts_bind (emitAndRun_lasts sound id entry)
  refine (emitAndRun_course sound.course id entry).mono ?_
  intro execution between begun
  split
  · apply lasts_get_bind
    cases between.provider with
    | none => exact lasts_pure _
    | some provider =>
      apply lasts_bind (requestDefinitions_lasts between provider _)
      refine (requestDefinitions_course begun provider _).mono ?_
      intro definitions asked asking
      apply lasts_bind (declareDefinitions_lasts definitions asking.sound)
      refine (declareDefinitions_course definitions asking).mono ?_
      intro declared after final
      split
      · exact lasts_pure _
      · exact emitAndRun_lasts final.sound id entry
  · exact lasts_pure _

theorem compileAndRun_lasts (sound : session.Sound) (text : String) (options : TransactionOptions)
    (entry : Option String) : Lasts (compileAndRun text options entry) session := by
  unfold compileAndRun
  apply lasts_get_bind
  apply lasts_bind (compile_lasts sound _)
  refine (compile_course sound.course _).mono ?_
  rintro report compiled ⟨tracks, -⟩
  dsimp only
  cases verdict : report.verdict with
  | failure => exact lasts_pure _
  | moreInputExpected => exact lasts_pure _
  | success =>
    apply lasts_bind (lasts_modify _)
    refine (tracks verdict).mono ?_
    intro _ tracked course
    apply lasts_get_bind
    cases tracked.log.get? report.transaction with
    | none => exact lasts_pure _
    | some transaction =>
      dsimp only
      split
      · exact lasts_bind (runWithDefinitions_lasts course.sound _ _) fun _ _ _ => lasts_pure _
      · exact lasts_pure _

theorem runFunction_lasts (sound : session.Sound) (name : String) :
    Lasts (runFunction name) session := by
  unfold runFunction
  apply lasts_get_bind
  split
  · exact lasts_pure _
  · split
    · exact lasts_pure _
    · split
      · exact lasts_pure _
      · split
        · exact lasts_pure _
        · exact lasts_pure _
        · exact runWithDefinitions_lasts sound _ _

/-! ## Submitted input -/

theorem runWrapped_lasts (sound : session.Sound) (mode : InputMode) (text : String) :
    Lasts (runWrapped mode text) session := by
  have echoes : ∀ (final : Session) (outcome : Outcome), Lasts (do
      echoValue mode outcome.value
      return outcome) final := by
    intro final outcome
    refine lasts_bind ?_ fun _ _ _ => lasts_pure _
    unfold echoValue
    split
    · exact lasts_modify _
    · exact lasts_pure _
  have wraps : Lasts (wrapInput mode text) session := by
    unfold wrapInput
    apply lasts_get_bind
    apply lasts_set_bind
    exact lasts_pure _
  unfold runWrapped
  apply lasts_bind wraps
  refine (wrapInput_course sound.course mode text).mono ?_
  intro wrapped between course
  apply lasts_bind (compileAndRun_lasts course.sound _ _ _)
  intro compiled ran _
  dsimp only
  split
  · exact lasts_modify_bind (echoes _ _)
  · exact echoes _ _

theorem submitWrapped_lasts (sound : session.Sound) (mode : InputMode) (text : String) :
    Lasts (submitWrapped mode text) session := by
  unfold submitWrapped
  apply lasts_get_bind
  split
  · exact compileAndRun_lasts sound _ _ _
  · split
    · exact runWrapped_lasts sound mode text
    · exact lasts_set_bind (lasts_pure _)

theorem submit_lasts (sound : session.Sound) (mode : InputMode) (text : String) :
    Lasts (submit mode text) session := by
  unfold submit
  apply lasts_get_bind
  split
  · apply lasts_set_bind
    have taken : { session with buffer := none }.Sound := sound.of_same rfl rfl rfl
    exact submitWrapped_lasts taken _ _
  · split
    · exact compileAndRun_lasts sound _ _ _
    · cases mode with
      | declare => exact compileAndRun_lasts sound _ _ _
      | headerOnly => exact compileAndRun_lasts sound _ _ _
      | evaluate => exact submitWrapped_lasts sound _ _
      | echo => exact submitWrapped_lasts sound _ _
      | execute => exact submitWrapped_lasts sound _ _

theorem process_lasts (sound : session.Sound) (text : String) :
    Lasts (process text) session := by
  unfold process
  apply lasts_get_bind
  split
  · exact submit_lasts sound _ _
  · split
    · exact submit_lasts sound _ _
    · exact submit_lasts sound _ _

/-! ## Loading and unloading -/

theorem unloadLibrary_lasts (sound : session.Sound) (name : String) :
    Lasts (unloadLibrary name) session := by
  unfold unloadLibrary
  apply lasts_get_bind
  apply lasts_bind
  · exact lasts_withEngine (Engine.unloadLibrary_completes sound.engine.wellFormed.lowered name)
  · intro result after _
    dsimp only
    split
    · exact lasts_modify_bind (lasts_pure _)
    · exact lasts_pure _

theorem loadFile_lasts (sound : session.Sound) (path : String) (allowsSharedObject : Bool) :
    Lasts (loadFile path allowsSharedObject) session := by
  unfold loadFile
  split
  · apply lasts_bind (lasts_modifyGet _)
    intro opening after _
    cases opening <;> exact lasts_pure _
  · apply lasts_get_bind
    dsimp only
    split
    · exact lasts_pure _
    · split
      · exact lasts_pure _
      · unfold loadSource
        apply lasts_bind (compileAndRun_lasts sound _ _ _)
        intro outcome after _
        split
        · exact lasts_modify_bind (lasts_pure _)
        · exact lasts_modify_bind (lasts_pure _)
        · exact lasts_pure _

theorem removeTransaction_lasts (sound : session.Sound) (id : TransactionId) :
    Lasts (removeTransaction id) session := by
  unfold removeTransaction
  apply lasts_bind
  · exact lasts_withEngine (Engine.unload_completes sound.engine.wellFormed.lowered id)
  · exact fun _ _ _ => lasts_modify_bind (lasts_pure _)

theorem unloadTransaction_lasts (sound : session.Sound) (id : TransactionId) :
    Lasts (unloadTransaction id) session := by
  unfold unloadTransaction
  apply lasts_get_bind
  split
  · apply lasts_bind (lasts_engine _)
    apply ends_withEngine
    intro dependents engine asked
    have same : (session.engine.dependents id).2 = engine := congrArg Prod.snd (Except.ok.inj asked)
    have asking := sound.withEngine (same ▸ Engine.dependents_succeeds sound.engine id)
    split
    · exact lasts_pure _
    · exact removeTransaction_lasts asking id
  · exact lasts_pure _

theorem unloadLast_lasts (sound : session.Sound) : Lasts unloadLast session := by
  unfold unloadLast
  apply lasts_get_bind
  split
  · exact lasts_pure _
  · exact unloadTransaction_lasts sound _

theorem runStaticDestructors_lasts (sound : session.Sound) :
    Lasts runStaticDestructors session :=
  lasts_withEngine (Engine.runStaticDestructors_completes sound.engine.wellFormed.lowered)

theorem finish_lasts (sound : session.Sound) : Lasts finish session := by
  unfold finish
  apply lasts_get_bind
  split
  · exact lasts_bind (runStaticDestructors_lasts sound) fun _ _ _ => lasts_pure _
  · exact lasts_pure _

/-! ## All operations -/

theorem perform_lasts (sound : session.Sound) (operation : Operation) :
    Lasts (perform operation) session := by
  cases operation with
  | submit mode text => exact lasts_map (submit_lasts sound mode text)
  | process text => exact lasts_map (process_lasts sound text)
  | loadFile path allowsSharedObject => exact lasts_map (loadFile_lasts sound path allowsSharedObject)
  | unloadLibrary name => exact lasts_map (unloadLibrary_lasts sound name)
  | unload id => exact lasts_map (unloadTransaction_lasts sound id)
  | unloadLast => exact lasts_map (unloadLast_lasts sound)
  | runFunction name => exact lasts_map (runFunction_lasts sound name)
  | emitAll id => exact lasts_map (runWithDefinitions_lasts sound id none)
  | runStaticDestructors => exact lasts_map (runStaticDestructors_lasts sound)
  | addressOf name => exact lasts_map (lasts_engine _)
  | cancelContinuation => exact lasts_map (lasts_modify_bind (lasts_modify _))
  | loadLibrary name permanent => exact lasts_map (lasts_modifyGet _)
  | createUniqueName => exact lasts_map (lasts_modifyGet _)
  | addFunction name function => exact lasts_map (lasts_modify _)
  | setCreator creator => exact lasts_map (lasts_modify _)
  | setProvider provider => exact lasts_map (lasts_modify _)
  | setObserver observer => exact lasts_map (lasts_modify _)
  | setRawInput raw => exact lasts_map (lasts_modify _)
  | provideLibrary name library => exact lasts_modify_bind (lasts_pure _)
  | changeFiles files => exact lasts_modify_bind (lasts_pure _)

theorem performAll_lasts (operations : List Operation) (sound : session.Sound) :
    Lasts (performAll operations) session := by
  induction operations generalizing session with
  | nil => exact lasts_pure []
  | cons operation rest inductionHypothesis =>
    unfold performAll
    apply lasts_bind (perform_lasts sound operation)
    refine (perform_ends sound operation).mono ?_
    intro answer between soundBetween
    exact lasts_bind (inductionHypothesis soundBetween) fun _ _ _ => lasts_pure _

/-! ## Assertions -/

/-- What is asserted holds between operations, and while the next one uses the compiler,
which it does by nothing but its operations. -/
structure KeepsAssertions (session : Session) : Prop where
  /-- However the compiler is used from here on, a request finds what it asserts. -/
  compiler : ∀ uses : List Compiler.Operation, ∃ answers compiler log,
    session.compiler.performAll session.log uses = .ok (answers, compiler, log) ∧
      ∀ request, compiler.Asserts log request
  /-- An execution finds a committed transaction. -/
  committed : ∀ transaction ∈ session.log.entries, transaction.state = .committed
  /-- The code of live modules uses slots of its frames only. -/
  framed : ∀ module ∈ session.engine.machine.modules, module.unit.Framed

theorem Sound.keepsAssertions (sound : session.Sound) : session.KeepsAssertions where
  compiler uses := by
    obtain ⟨answers, compiler, log, performed, soundAfter⟩ := sound.compiler.performAll uses
    exact ⟨answers, compiler, log, performed, soundAfter.asserts⟩
  committed := sound.compiler.logged.committed
  framed module member := (sound.engine.wellFormed.lowered module member).framed

/-- A new interpreter that gives its loops a number of rounds. -/
def givingRounds (rounds : Nat) (config : Config) (source : LibrarySource)
    (files : Files.FileTree) : Session :=
  { new config source files with
    engine := .new { config.limits with loopRounds := rounds } source }

theorem givingRounds_standard (config : Config) (source : LibrarySource) (files : Files.FileTree) :
    givingRounds Limits.standard.loopRounds config source files = new config source files := rfl

theorem sound_givingRounds (rounds : Nat) (config : Config) (source : LibrarySource)
    (files : Files.FileTree) : (givingRounds rounds config source files).Sound :=
  (sound_new config source files).withEngine
    ⟨Engine.recorded_new { config.limits with loopRounds := rounds } source,
      fun _ => id, fun _ => .rfl⟩

/-- Whatever is asked of an interpreter, in whatever order and under whatever settings, it
breaks down only where a loop has run for all the rounds that loops are given, however many
these are. At every other end all assertions hold, and the session can be finished. -/
theorem only_endless_loops_break_down (rounds : Nat) (config : Config) (source : LibrarySource)
    (files : Files.FileTree) (operations : List Operation) :
    Completes (performAll operations (givingRounds rounds config source files))
      fun finished => finished.2.KeepsAssertions ∧ Lasts finish finished.2 := by
  have sound := sound_givingRounds rounds config source files
  have lasts := performAll_lasts operations sound
  have ends := performAll_ends operations sound
  unfold Lasts at lasts
  cases performed : performAll operations (givingRounds rounds config source files) with
  | error breakdown =>
    rw [performed] at lasts
    exact lasts
  | ok finished =>
    have soundAfter := ends finished.1 finished.2 performed
    exact ⟨soundAfter.keepsAssertions, finish_lasts soundAfter⟩

/-- A loop of three rounds tests its condition four times. -/
example :
    ([3, 4].map fun rounds =>
      (performAll [.submit .declare "int i;", .submit .execute "while (i < 3) i = i + 1;"]
        (givingRounds rounds .standard .sharedObjects [])).map fun _ => ()) =
      [.error .endlessLoop, .ok ()] := by
  decide +kernel

end IncrementalC.Session
