import IncrementalC.Proofs.Session.Keeping
import IncrementalC.Proofs.Session.Steps

/-!
Contract: every operation takes steps of a session.

Owns: operations and runs of them as courses of sound sessions, and what they keep of the compiler
and the log.

Does not own: what the steps preserve.
-/

namespace IncrementalC.Session

open Relation (ReflTransGen)

variable {start session : Session}

/-! ## Compiling and running -/

/-- What is done while text is compiled and run continues a course. -/
theorem keptByRuns_course (start : Session) : KeptByRuns start.Course where
  aside _ _ _ course := course.aside rfl rfl rfl rfl
  executed course ran :=
    course.work (Engine.emitAndRun_works ran) (Engine.emitAndRun_succeeds course.sound.engine ran)
  asked _ course := course.withHost _ _ rfl
  rejected course compiled refused := course.step (.rejected compiled refused)
  committed := by
    intro session request report compiler log course compiled accepted
    have committed := (course.sound.compiled compiled).1 accepted
    obtain ⟨transaction, logged⟩ := Option.isSome_iff_exists.mp committed.logged
    have own := (TransactionLog.id_of_get? logged).symm
    rw [own] at logged ⊢
    exact trackCommitted_ends logged
      (Course.notify (course.step (.committed compiled accepted own logged)) _)
  abandoned course := course.step .abandoned

theorem compile_course (course : start.Course session) (request : CompileRequest) :
    Ends (compile request) session fun report after =>
      (report.verdict = .success →
        Ends (trackCommitted report.transaction) after fun _ final => start.Course final) ∧
      (report.verdict ≠ .success → start.Course after) :=
  (keptByRuns_course start).compile_ends course request

theorem emitAndRun_course (course : start.Course session) (id : TransactionId)
    (entry : Option String) :
    Ends (emitAndRun id entry) session fun _ after => start.Course after :=
  (keptByRuns_course start).emitAndRun_ends course id entry

theorem requestDefinitions_course (course : start.Course session) (provider : DefinitionProvider)
    (names : List String) :
    Ends (requestDefinitions provider names) session fun _ after => start.Course after :=
  (keptByRuns_course start).requestDefinitions_ends course provider names

theorem declareDefinition_course (course : start.Course session) (name source : String) :
    Ends (declareDefinition name source) session fun _ after => start.Course after :=
  (keptByRuns_course start).declareDefinition_ends course name source

theorem declareDefinitions_course (definitions : List (String × String))
    (course : start.Course session) :
    Ends (declareDefinitions definitions) session fun _ after => start.Course after :=
  (keptByRuns_course start).declareDefinitions_ends course definitions

theorem wrapInput_course (course : start.Course session) (mode : InputMode) (text : String) :
    Ends (wrapInput mode text) session fun _ after => start.Course after :=
  (keptByRuns_course start).wrapInput_ends course mode text

/-- Text that is accepted is logged and handed over, and is then run if its transaction is of that
kind. -/
theorem compileAndRun_accepted (sound : session.Sound) {text : String}
    {options : TransactionOptions} {entry : Option String}
    {afterwards : Outcome → Session → Prop}
    (runs : ∀ {outcome : Outcome} {transaction : Transaction} {compiler : Compiler}
      {log : TransactionLog} {tracked : Session},
      Compiler.LogsNewest session.compiler session.log
        ⟨text, options.withFatalWarnings session.config.fatalWarnings, entry, none⟩ transaction
        compiler log →
      tracked = (handOver { session with compiler, log } transaction).notify
        (.committed transaction) →
      tracked.Sound → tracked.log.get? transaction.id = some transaction →
      outcome.transaction = some transaction.id →
      Ends (if transaction.options.runsInitializers then do
          let execution ← runWithDefinitions transaction.id transaction.entry
          return outcome.withExecution execution
        else return outcome) tracked afterwards) :
    Ends (compileAndRun text options entry) session fun outcome after =>
      outcome.verdict = .success → afterwards outcome after := by
  unfold compileAndRun
  apply ends_get_bind
  apply ends_bind
  apply ends_compile
  intro report compiler log compiled
  dsimp only
  split
  · next failed => exact ends_pure fun succeeded => nomatch failed.symm.trans succeeded
  · next waits => exact ends_pure fun succeeded => nomatch waits.symm.trans succeeded
  · next accepted =>
    obtain ⟨transaction, own, newest, handed⟩ := sound.exists_newest compiled accepted
    rw [← own]
    have tracked := handed.notify (.committed transaction)
    have logged : ((handOver { session with compiler, log } transaction).notify
        (.committed transaction)).log.get? transaction.id = some transaction := by
      obtain ⟨trace, told⟩ :=
        exists_notify (handOver { session with compiler, log } transaction) (.committed transaction)
      rw [told]
      exact newest.found
    apply ends_bind
    refine trackCommitted_ends newest.found (ends_get_bind ?_)
    rw [logged]
    refine (runs newest rfl tracked logged ?_).mono fun _ _ final _ => final
    exact congrArg some own.symm

/-! ## Operations -/

/-- Whatever is asked continues a course. -/
theorem keptByOperations_course (start : Session) :
    KeptByOperations (fun _ => True) start.Course where
  toKeptByRuns := keptByRuns_course start
  settled _ _ _ course := course.aside rfl rfl rfl rfl
  filed _ _ course := course.aside rfl rfl rfl rfl
  equipped _ _ course := course.withHost _ _ rfl
  located name course :=
    course.work (Engine.locate_works _ name) (Engine.locate_succeeds course.sound.engine name)
  destructed course ran :=
    course.work (Engine.runStaticDestructors_works ran)
      (Engine.runStaticDestructors_succeeds course.sound.engine ran)
  told notification course := course.notify notification
  opened _ _ course :=
    course.work (.single (Engine.loadLibrary_works _ _ _ _ _))
      (Engine.loadLibrary_succeeds course.sound.engine _ _ _ _)
  closed course ran :=
    course.work (Engine.unloadLibrary_works ran)
      (Engine.unloadLibrary_succeeds course.sound.engine ran)
  loaded _ course _ :=
    (keptByRuns_course start).loadSource_ends course (fun marked => marked.withHost _ _ rfl) _
  generated course := course.work (.single .generated) course.sound.engine.emitPending
  removed course logged spared ran := course.step (.unloaded logged spared ran)

theorem performAll_course (operations : List Operation) (course : start.Course session) :
    Ends (performAll operations) session fun _ after => start.Course after :=
  (keptByOperations_course start).performAll_ends course fun _ _ => trivial

/-! ## Soundness -/

/-- Every operation keeps sessions sound. -/
theorem perform_ends (sound : session.Sound) (operation : Operation) :
    Ends (perform operation) session fun _ after => after.Sound :=
  ((keptByOperations_course session).perform_ends sound.course trivial).mono
    fun _ _ course => course.sound

theorem performAll_ends (operations : List Operation) (sound : session.Sound) :
    Ends (performAll operations) session fun _ after => after.Sound :=
  (performAll_course operations sound.course).mono fun _ _ course => course.sound

/-- What holds of a new session and is kept at each step holds after every run. -/
theorem holds_of_performAll (holds : Session → Prop) {config : Config} {source : LibrarySource}
    {files : Files.FileTree} {operations : List Operation} {answers : List Answer}
    (performed : performAll operations (new config source files) = .ok (answers, session))
    (first : holds (new config source files))
    (next : ∀ {before after : Session}, before.Sound → before.Moves after → holds before →
      holds after) : holds session :=
  have began := sound_new config source files
  (performAll_course operations began.course answers session performed).keeps began first next

/-! ## The compiler and the log -/

/-- A property of the compiler and the log that is kept while text is compiled, and when code is
collected or unfinished text is abandoned. -/
structure KeptByCompiling (holds : Compiler → TransactionLog → Prop) : Prop where
  compiled : ∀ {compiler after : Compiler} {log logged : TransactionLog} {request : CompileRequest}
    {report : CompileReport}, compiler.Sound log → holds compiler log →
    compiler.compile log request = .ok (report, after, logged) → holds after logged
  collected : ∀ {compiler : Compiler} {log : TransactionLog} (id : TransactionId),
    holds compiler log →
    holds { compiler with checker := (compiler.checker.collectUnit id).2 } log
  abandoned : ∀ {compiler : Compiler} {log : TransactionLog}, holds compiler log →
    holds compiler.abandonOpen.2 log

namespace KeptByCompiling

variable {holds : Compiler → TransactionLog → Prop}

theorem keptByRuns (kept : KeptByCompiling holds) :
    KeptByRuns fun session => session.Sound ∧ holds session.compiler session.log where
  aside _ _ _ now := ⟨now.1.of_same rfl rfl rfl, now.2⟩
  executed now ran := ⟨now.1.withEngine (Engine.emitAndRun_succeeds now.1.engine ran), now.2⟩
  asked _ now := ⟨now.1.withHost _ _ rfl, now.2⟩
  rejected now compiled refused :=
    ⟨(now.1.compiled compiled).2 refused, kept.compiled now.1.compiler now.2 compiled⟩
  committed := by
    rintro session request report compiler log ⟨sound, now⟩ compiled accepted
    obtain ⟨transaction, own, newest, handed⟩ := sound.exists_newest compiled accepted
    rw [← own]
    have next := kept.collected transaction.id (kept.compiled sound.compiler now compiled)
    have told := handed.notify (.committed transaction)
    refine trackCommitted_ends newest.found ⟨told, ?_⟩
    obtain ⟨trace, same⟩ :=
      exists_notify (handOver { session with compiler, log } transaction) (.committed transaction)
    rw [same]
    exact next
  abandoned now := ⟨now.1.abandonOpen, kept.abandoned now.2⟩

/-- What is also kept when a transaction is unloaded is kept by every operation. -/
theorem keptByOperations (kept : KeptByCompiling holds)
    (unloaded : ∀ {compiler : Compiler} {log : TransactionLog} (id : TransactionId),
      holds compiler log → holds (compiler.unload log id).2.1 (compiler.unload log id).2.2) :
    KeptByOperations (fun _ => True) fun session =>
      session.Sound ∧ holds session.compiler session.log where
  toKeptByRuns := kept.keptByRuns
  settled _ _ _ now := ⟨now.1.of_same rfl rfl rfl, now.2⟩
  filed _ _ now := ⟨now.1.of_same rfl rfl rfl, now.2⟩
  equipped _ _ now := ⟨now.1.withHost _ _ rfl, now.2⟩
  located name now := ⟨now.1.withEngine (Engine.locate_succeeds now.1.engine name), now.2⟩
  destructed now ran :=
    ⟨now.1.withEngine (Engine.runStaticDestructors_succeeds now.1.engine ran), now.2⟩
  told := by
    rintro session notification ⟨sound, now⟩
    have told := sound.notify notification
    obtain ⟨trace, same⟩ := exists_notify session notification
    rw [same] at told ⊢
    exact ⟨told, now⟩
  opened _ _ now := ⟨now.1.withEngine (Engine.loadLibrary_succeeds now.1.engine _ _ _ _), now.2⟩
  closed now ran := ⟨now.1.withEngine (Engine.unloadLibrary_succeeds now.1.engine ran), now.2⟩
  loaded _ now _ :=
    kept.keptByRuns.loadSource_ends now (fun marked => ⟨marked.1.withHost _ _ rfl, marked.2⟩) _
  generated now := ⟨now.1.withEngine now.1.engine.emitPending, now.2⟩
  removed now _ _ ran := by
    have generating := now.1.withEngine now.1.engine.emitPending
    exact ⟨generating.remove (Engine.unload_drops generating.engine ran), unloaded _ now.2⟩

end KeptByCompiling

end IncrementalC.Session
