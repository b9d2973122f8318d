import IncrementalC.Proofs.Session.Operation

/-!
Contract: what compiling and running text keeps.

However text is submitted, and whatever definitions are declared on the way, a session compiles
requests, hands the code of commits to the engine, has transactions executed, and drops what waits
for more input. What each of these keeps, every submission keeps.

Owns: what is kept by compiling and running, and the operations that do nothing else.

Does not own: what is kept, or loading and unloading.
-/

namespace IncrementalC.Session

/-- A property of sessions that is kept by each thing that is done while text is compiled and run.
Made-up names, buffered input and the output are of no account. -/
structure KeptByRuns (holds : Session → Prop) : Prop where
  aside : ∀ {session : Session} (names : Input.NameSupply) (buffer : Option BufferedInput)
    (output : Output), holds session → holds { session with names, buffer, output }
  executed : ∀ {session : Session} {id : TransactionId} {entry : Option String}
    {execution : Execution} {engine : Engine}, holds session →
    session.engine.emitAndRun session.log id entry = .ok (execution, engine) →
    holds { session with engine }
  asked : ∀ {session : Session} (name : String), holds session →
    holds { session with engine := session.engine.record (.definitionRequested name) }
  rejected : ∀ {session : Session} {request : CompileRequest} {report : CompileReport}
    {compiler : Compiler} {log : TransactionLog}, holds session →
    session.compiler.compile session.log request = .ok (report, compiler, log) →
    report.verdict ≠ .success → holds { session with compiler, log }
  committed : ∀ {session : Session} {request : CompileRequest} {report : CompileReport}
    {compiler : Compiler} {log : TransactionLog}, holds session →
    session.compiler.compile session.log request = .ok (report, compiler, log) →
    report.verdict = .success →
    Ends (trackCommitted report.transaction) { session with compiler, log } fun _ => holds
  abandoned : ∀ {session : Session}, holds session →
    holds { session with compiler := session.compiler.abandonOpen.2 }

namespace KeptByRuns

variable {holds : Session → Prop} {session : Session}

/-! ## Compiling and running -/

/-- What is accepted goes on with its code being handed to the engine. -/
theorem compile_ends (kept : KeptByRuns holds) (now : holds session) (request : CompileRequest) :
    Ends (compile request) session fun report after =>
      (report.verdict = .success →
        Ends (trackCommitted report.transaction) after fun _ => holds) ∧
      (report.verdict ≠ .success → holds after) :=
  ends_compile fun _ _ _ compiled => ⟨kept.committed now compiled, kept.rejected now compiled⟩

theorem abandonOpen_ends (kept : KeptByRuns holds) (now : holds session) :
    Ends abandonOpen session fun _ => holds :=
  ends_modify (kept.abandoned now)

theorem emitAndRun_ends (kept : KeptByRuns holds) (now : holds session) (id : TransactionId)
    (entry : Option String) : Ends (emitAndRun id entry) session fun _ => holds := by
  unfold emitAndRun
  apply ends_get_bind
  apply ends_withEngine
  intro execution engine ran
  exact kept.executed now ran

theorem requestDefinitions_ends (kept : KeptByRuns holds) (now : holds session)
    (provider : DefinitionProvider) (names : List String) :
    Ends (requestDefinitions provider names) session fun _ => holds := by
  unfold requestDefinitions
  apply ends_get_bind
  apply ends_bind
  apply ends_modify
  apply ends_pure
  induction names generalizing session with
  | nil => exact now
  | cons name rest inductionHypothesis => exact inductionHypothesis (kept.asked name now)

theorem declareDefinition_ends (kept : KeptByRuns holds) (now : holds session)
    (name source : String) : Ends (declareDefinition name source) session fun _ => holds := by
  unfold declareDefinition
  apply ends_get_bind
  apply ends_bind
  refine (kept.compile_ends now _).mono ?_
  rintro report after ⟨tracks, refused⟩
  cases verdict : report.verdict with
  | success =>
    apply ends_bind
    exact (tracks verdict).mono fun _ _ final => ends_pure final
  | moreInputExpected =>
    rw [verdict] at refused
    apply ends_bind
    exact (kept.abandonOpen_ends (refused nofun)).mono fun _ _ final => ends_pure final
  | failure =>
    rw [verdict] at refused
    exact ends_pure (refused nofun)

theorem declareDefinitions_ends (kept : KeptByRuns holds) (now : holds session)
    (definitions : List (String × String)) :
    Ends (declareDefinitions definitions) session fun _ => holds := by
  induction definitions generalizing session with
  | nil => exact ends_pure now
  | cons definition rest inductionHypothesis =>
    unfold declareDefinitions
    apply ends_bind
    refine (kept.declareDefinition_ends now definition.1 definition.2).mono ?_
    intro declared between begun
    apply ends_bind
    exact (inductionHypothesis begun).mono fun _ _ final => ends_pure final

theorem runWithDefinitions_ends (kept : KeptByRuns holds) (now : holds session)
    (id : TransactionId) (entry : Option String) :
    Ends (runWithDefinitions id entry) session fun _ => holds := by
  unfold runWithDefinitions
  apply ends_bind
  refine (kept.emitAndRun_ends now id entry).mono ?_
  intro execution between begun
  split
  · apply ends_get_bind
    cases between.provider with
    | none => exact ends_pure begun
    | some provider =>
      apply ends_bind
      refine (kept.requestDefinitions_ends begun provider _).mono ?_
      intro definitions asked asking
      apply ends_bind
      refine (kept.declareDefinitions_ends asking definitions).mono ?_
      intro declared final final
      split
      · exact ends_pure final
      · exact kept.emitAndRun_ends final id entry
  · exact ends_pure begun

theorem compileAndRun_ends (kept : KeptByRuns holds) (now : holds session) (text : String)
    (options : TransactionOptions) (entry : Option String) :
    Ends (compileAndRun text options entry) session fun _ => holds := by
  unfold compileAndRun
  apply ends_get_bind
  apply ends_bind
  refine (kept.compile_ends now _).mono ?_
  rintro report compiled ⟨tracks, refused⟩
  dsimp only
  cases verdict : report.verdict with
  | failure =>
    rw [verdict] at refused
    exact ends_pure (refused nofun)
  | moreInputExpected =>
    rw [verdict] at refused
    exact ends_pure (refused nofun)
  | success =>
    apply ends_bind
    refine (tracks verdict).mono ?_
    intro _ tracked tracking
    apply ends_get_bind
    cases tracked.log.get? report.transaction with
    | none => exact ends_pure tracking
    | some transaction =>
      dsimp only
      split
      · apply ends_bind
        exact (kept.runWithDefinitions_ends tracking _ _).mono fun _ _ final => ends_pure final
      · exact ends_pure tracking

theorem runFunction_ends (kept : KeptByRuns holds) (now : holds session) (name : String) :
    Ends (runFunction name) session fun _ => holds := by
  unfold runFunction
  apply ends_get_bind
  split
  · exact ends_pure now
  · split
    · exact ends_pure now
    · split
      · exact ends_pure now
      · split
        · exact ends_pure now
        · exact ends_pure now
        · exact kept.runWithDefinitions_ends now _ _

end KeptByRuns

/-- Text is answered and reported on as the request to compile it is, and if that is not accepted,
nothing follows it. -/
theorem compileAndRun_report (text : String) (options : TransactionOptions)
    (entry : Option String) (session : Session) :
    Ends (compileAndRun text options entry) session fun outcome after =>
      ∃ report compiler log,
        session.compiler.compile session.log
          ⟨text, options.withFatalWarnings session.config.fatalWarnings, entry, none⟩ =
            .ok (report, compiler, log) ∧
        outcome.verdict = report.verdict ∧ outcome.diagnostics = report.diagnostics ∧
        (report.verdict ≠ .success → after = { session with compiler, log }) := by
  unfold compileAndRun
  apply ends_get_bind
  apply ends_bind
  apply ends_compile
  intro report compiler log answered
  dsimp only
  split
  · exact ends_pure ⟨report, compiler, log, answered, rfl, rfl, fun _ => rfl⟩
  · exact ends_pure ⟨report, compiler, log, answered, rfl, rfl, fun _ => rfl⟩
  · next accepted =>
    have settles : ∀ {outcome : Outcome} {after : Session}, outcome.verdict = report.verdict →
        outcome.diagnostics = report.diagnostics →
        ∃ report compiler log,
          session.compiler.compile session.log
            ⟨text, options.withFatalWarnings session.config.fatalWarnings, entry, none⟩ =
              .ok (report, compiler, log) ∧
          outcome.verdict = report.verdict ∧ outcome.diagnostics = report.diagnostics ∧
          (report.verdict ≠ .success → after = { session with compiler, log }) :=
      fun same reports => ⟨report, compiler, log, answered, same, reports,
        fun refused => absurd accepted refused⟩
    apply ends_bind
    intro _ tracked _
    apply ends_get_bind
    split
    · exact ends_pure (settles rfl rfl)
    · split
      · apply ends_bind
        intro execution ran _
        exact ends_pure (settles rfl rfl)
      · exact ends_pure (settles rfl rfl)

/-- Text is answered as the request to compile it is, and if that is not accepted, nothing
follows it. -/
theorem compileAndRun_verdict (text : String) (options : TransactionOptions)
    (entry : Option String) (session : Session) :
    Ends (compileAndRun text options entry) session fun outcome after =>
      ∃ report compiler log,
        session.compiler.compile session.log
          ⟨text, options.withFatalWarnings session.config.fatalWarnings, entry, none⟩ =
            .ok (report, compiler, log) ∧
        outcome.verdict = report.verdict ∧
        (report.verdict ≠ .success → after = { session with compiler, log }) := by
  refine (compileAndRun_report text options entry session).mono ?_
  rintro outcome after ⟨report, compiler, log, answered, same, -, refused⟩
  exact ⟨report, compiler, log, answered, same, refused⟩

namespace KeptByRuns

variable {holds : Session → Prop} {session : Session}

/-! ## Submitted input -/

theorem wrapInput_ends (kept : KeptByRuns holds) (now : holds session) (mode : InputMode)
    (text : String) : Ends (wrapInput mode text) session fun _ => holds := by
  unfold wrapInput
  apply ends_get_bind
  apply ends_set_bind
  exact ends_pure (kept.aside _ session.buffer session.output now)

theorem echoValue_ends (kept : KeptByRuns holds) (now : holds session) (mode : InputMode)
    (value : Option Value) : Ends (echoValue mode value) session fun _ => holds := by
  unfold echoValue
  split
  · exact ends_modify (kept.aside session.names session.buffer _ now)
  · exact ends_pure now

theorem runWrapped_ends (kept : KeptByRuns holds) (now : holds session) (mode : InputMode)
    (text : String) : Ends (runWrapped mode text) session fun _ => holds := by
  unfold runWrapped
  apply ends_bind
  refine (kept.wrapInput_ends now mode text).mono ?_
  intro wrapped between begun
  apply ends_bind
  refine (kept.compileAndRun_ends begun _ _ _).mono ?_
  intro compiled ran final
  dsimp only
  split
  · apply ends_bind
    refine (kept.abandonOpen_ends final).mono ?_
    intro _ abandoned final
    apply ends_bind
    apply ends_pure
    apply ends_bind
    exact (kept.echoValue_ends final mode _).mono fun _ _ final => ends_pure final
  · apply ends_bind
    apply ends_pure
    apply ends_bind
    exact (kept.echoValue_ends final mode _).mono fun _ _ final => ends_pure final

theorem submitWrapped_ends (kept : KeptByRuns holds) (now : holds session) (mode : InputMode)
    (text : String) : Ends (submitWrapped mode text) session fun _ => holds := by
  unfold submitWrapped
  apply ends_get_bind
  split
  · exact kept.compileAndRun_ends now _ _ _
  · split
    · exact kept.runWrapped_ends now mode text
    · apply ends_set_bind
      exact ends_pure (kept.aside session.names _ session.output now)

theorem submit_ends (kept : KeptByRuns holds) (now : holds session) (mode : InputMode)
    (text : String) : Ends (submit mode text) session fun _ => holds := by
  unfold submit
  apply ends_get_bind
  split
  · apply ends_set_bind
    exact kept.submitWrapped_ends (kept.aside session.names none session.output now) _ _
  · split
    · exact kept.compileAndRun_ends now _ _ _
    · cases mode with
      | declare => exact kept.compileAndRun_ends now _ _ _
      | headerOnly => exact kept.compileAndRun_ends now _ _ _
      | evaluate => exact kept.submitWrapped_ends now _ _
      | echo => exact kept.submitWrapped_ends now _ _
      | execute => exact kept.submitWrapped_ends now _ _

theorem process_ends (kept : KeptByRuns holds) (now : holds session) (text : String) :
    Ends (process text) session fun _ => holds := by
  unfold process
  apply ends_get_bind
  split
  · exact kept.submit_ends now _ _
  · split
    · exact kept.submit_ends now _ _
    · exact kept.submit_ends now _ _

theorem cancelContinuation_ends (kept : KeptByRuns holds) (now : holds session) :
    Ends cancelContinuation session fun _ => holds := by
  unfold cancelContinuation
  apply ends_bind
  apply ends_modify
  exact kept.abandonOpen_ends (kept.aside session.names none session.output now)

/-! ## Operations -/

end KeptByRuns

/-- The operation compiles and runs text, and does nothing else. -/
def Operation.runsText : Operation → Bool
  | .submit .. | .process _ | .cancelContinuation | .runFunction _ | .emitAll _ => true
  | _ => false

theorem KeptByRuns.perform_ends {holds : Session → Prop} {session : Session}
    (kept : KeptByRuns holds) (now : holds session) {operation : Operation}
    (runs : operation.runsText = true) : Ends (perform operation) session fun _ => holds := by
  cases operation with
  | submit mode text => exact ends_map (kept.submit_ends now mode text)
  | process text => exact ends_map (kept.process_ends now text)
  | cancelContinuation => exact ends_map (kept.cancelContinuation_ends now)
  | runFunction name => exact ends_map (kept.runFunction_ends now name)
  | emitAll id => exact ends_map (kept.runWithDefinitions_ends now id none)
  | _ => cases runs

end IncrementalC.Session
