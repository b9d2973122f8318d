import IncrementalC.Proofs.Compilation.Naming
import IncrementalC.Proofs.Compilation.Rollback
import IncrementalC.Proofs.Compilation.Units
import IncrementalC.Proofs.Engine.Containment
import IncrementalC.Proofs.Session.Isolation

/-!
Contract: a loaded file is declared as long as its transaction is logged.

A source file is compiled the first time that it is loaded, and is marked. The mark stays when the
transaction is unloaded, and loading the file again then does nothing. A file that is refused
changes nothing, and is not marked.

Owns: the names that are declared in a session, how loading a file ends, and where the marks of
loaded files come from.

Does not own: shared objects, or files that change.
-/

namespace IncrementalC.Session

variable {start session after : Session}

/-! ## Declared names -/

theorem keptByCompiling_names : KeptByCompiling fun compiler log =>
    log.Names compiler.checker.table.records where
  compiled sound names compiled := names.compile sound compiled
  collected := by
    intro compiler log id names
    dsimp only
    rw [Checker.table_collectUnit]
    exact names
  abandoned names := names.abandonOpen

/-- The records of logged transactions are of the names that their texts declare, after every
operation. -/
theorem keptByOperations_names : KeptByOperations (fun _ => True) fun session =>
    session.Sound ∧ session.log.Names session.compiler.checker.table.records :=
  keptByCompiling_names.keptByOperations fun id names => names.unload id

/-! ## Compiled text -/

/-- While text is compiled, no transaction leaves the log. -/
theorem keptByCompiling_logged (transaction : Transaction) : KeptByCompiling fun _ log =>
    log.get? transaction.id = some transaction where
  compiled := by
    intro compiler after log more request report sound logged compiled
    obtain ⟨appends, refuses⟩ := sound.compile_appends compiled
    unfold TransactionLog.get? at logged ⊢
    by_cases accepted : report.verdict = .success
    · obtain ⟨_, -, newest⟩ := appends accepted
      rw [newest.entries, List.find?_append, logged, Option.some_or]
    · rw [refuses accepted, logged]
  collected _ logged := logged
  abandoned logged := logged

/-- Text that is accepted is logged behind what waits, and stays in the log while it is run. -/
theorem compileAndRun_logs (sound : session.Sound) (text : String) (options : TransactionOptions)
    (entry : Option String) :
    Ends (compileAndRun text options entry) session fun outcome after =>
      outcome.verdict = .success → ∃ transaction,
        session.compiler.Collects session.log text transaction ∧
        session.log.get? transaction.id = none ∧
        after.log.get? transaction.id = some transaction := by
  refine compileAndRun_accepted sound ?_
  intro outcome transaction compiler log tracked newest handed soundTracked logged own
  split
  · apply ends_bind
    refine ((keptByCompiling_logged transaction).keptByRuns.runWithDefinitions_ends
      ⟨soundTracked, logged⟩ _ _).mono ?_
    rintro execution after ⟨-, stays⟩
    exact ends_pure ⟨transaction, newest.collects, newest.unlogged, stays⟩
  · exact ends_pure ⟨transaction, newest.collects, newest.unlogged, logged⟩

/-- The same is logged and declared, and the engine is as before. -/
structure Unchanged (session after : Session) : Prop where
  entries : after.log.entries = session.log.entries
  live : after.compiler.checker.table.records.filter DeclarationRecord.isLive =
    session.compiler.checker.table.records.filter DeclarationRecord.isLive
  lookup : ∀ name, after.compiler.checker.lookup name = session.compiler.checker.lookup name
  functionInfo? : ∀ name,
    after.compiler.checker.functionInfo? name = session.compiler.checker.functionInfo? name
  engine : after.engine = session.engine
  files : after.files = session.files

theorem Unchanged.refl (session : Session) : session.Unchanged session :=
  ⟨rfl, rfl, fun _ => rfl, fun _ => rfl, rfl, rfl⟩

/-- Input that comes to nothing changes nothing. -/
theorem unchanged_of_comesToNothing (sound : session.Sound) {id : TransactionId}
    {compiler : Compiler} {log : TransactionLog}
    (nothing : Compiler.ComesToNothing id session.compiler session.log compiler log) :
    session.Unchanged { session with compiler, log } := by
  obtain ⟨gap, -, -, -, allocated⟩ :=
    nothing.leaves sound.compiler.toWellFormed ⟨"", .declaration, none, none⟩
  have lookup := gap.lookup_eq sound.compiler.checker.table
  refine ⟨?_, ?_, fun name => congrArg _ (lookup name), ?_, rfl, rfl⟩
  · rw [allocated]
    exact (session.compiler.transactionFor_log session.log _).1
  · obtain ⟨more, records, forgotten⟩ := gap.records
    dsimp only
    rw [records, List.filter_append, List.filter_eq_nil_iff.mpr fun record member =>
      Bool.eq_false_iff.mp (forgotten record member), List.append_nil]
  · intro name
    simp only [Checker.functionInfo?, lookup]

/-! ## Loading a file -/

/-- The files that are marked as loaded sources. -/
def sources (session : Session) : List LoadedFile :=
  session.engine.loadedFiles.filter (·.kind = .source)

/-- The mark of a source file. -/
def sourceMark (session : Session) (path : String) : LoadedFile :=
  ⟨(session.files.canonical? path).getD path, .source, none⟩

/-- The text of a file is logged behind what waits, and the file is marked. -/
structure Loads (session : Session) (path : String) (transaction : Transaction) (after : Session) :
    Prop where
  reads : ∃ text, session.files.readText? path = some text ∧
    session.compiler.Collects session.log text transaction
  unlogged : session.log.get? transaction.id = none
  logged : after.log.get? transaction.id = some transaction
  marks : after.sources = session.sources ++ [session.sourceMark path]

/-- How loading a source file ends. -/
inductive LoadEnds (session : Session) (path : String) : CompileVerdict → Session → Prop where
  /-- A file of the name is marked already. -/
  | known {file : LoadedFile} (marked : file ∈ session.sources)
      (named : file.name = (session.sourceMark path).name) : LoadEnds session path .success session
  | loaded {transaction : Transaction} {after : Session}
      (loads : session.Loads path transaction after) (files : after.files = session.files) :
      LoadEnds session path .success after
  | refused {after : Session} (unchanged : session.Unchanged after) :
      LoadEnds session path .failure after

/-- The files and the marks of source files are as at the start. -/
structure SameSources (start session : Session) : Prop where
  files : session.files = start.files
  sources : session.sources = start.sources

theorem SameSources.withEngine (same : start.SameSources session) {engine : Engine}
    (loaded : engine.loadedFiles = session.engine.loadedFiles) :
    start.SameSources { session with engine } :=
  ⟨same.files, (congrArg (List.filter _) loaded).trans same.sources⟩

theorem SameSources.contained (same : start.SameSources session) {engine : Engine}
    (contained : session.engine.Contained (fun _ => True) engine) :
    start.SameSources { session with engine } :=
  same.withEngine contained.loadedFiles

theorem SameSources.notify (same : start.SameSources session) (notification : Notification) :
    start.SameSources (session.notify notification) := by
  obtain ⟨trace, told⟩ := exists_notify session notification
  rw [told]
  exact same.withEngine rfl

theorem keptByRuns_sameSources (start : Session) : KeptByRuns start.SameSources where
  aside _ _ _ same := ⟨same.files, same.sources⟩
  executed same ran := same.contained (Engine.emitAndRun_contained (fun _ _ => trivial) ran)
  asked _ same := same.withEngine rfl
  rejected same _ _ := ⟨same.files, same.sources⟩
  committed := by
    intro session request report compiler log same _ _
    apply ends_modify
    split
    · exact ⟨same.files, same.sources⟩
    · next transaction logged =>
      rw [← TransactionLog.id_of_get? logged]
      have handed : start.SameSources (handOver { session with compiler, log } transaction) :=
        ⟨same.files, same.sources⟩
      exact handed.notify _
  abandoned same := ⟨same.files, same.sources⟩

theorem loadSource_loadEnds (sound : session.Sound) {path text : String}
    (reads : session.files.readText? path = some text) :
    Ends (loadSource (session.sourceMark path).name text) session (LoadEnds session path) := by
  unfold loadSource
  apply ends_bind
  intro outcome compiled ran
  have same := (keptByRuns_sameSources session).compileAndRun_ends ⟨rfl, rfl⟩ _ _ _
    outcome compiled ran
  have accepted := compileAndRun_logs sound text .declaration none outcome compiled ran
  obtain ⟨report, compiler, log, answered, verdict, settles⟩ :=
    compileAndRun_verdict text .declaration none session outcome compiled ran
  split
  · next succeeded =>
    obtain ⟨transaction, collects, unlogged, logged⟩ := accepted succeeded
    apply ends_bind
    apply ends_modify
    apply ends_pure
    refine .loaded ⟨⟨text, reads, collects⟩, unlogged, logged, ?_⟩ same.files
    refine (List.filter_append ..).trans (congrArg₂ (· ++ ·) same.sources ?_)
    rfl
  · next waits =>
    rw [waits] at verdict
    rw [settles (verdict ▸ nofun)]
    apply ends_bind
    apply ends_modify
    apply ends_pure
    exact .refused (unchanged_of_comesToNothing sound (.abandoned answered verdict.symm rfl))
  · next failed =>
    rw [failed] at verdict
    rw [settles (verdict ▸ nofun)]
    exact ends_pure (.refused
      (unchanged_of_comesToNothing sound (.failed answered verdict.symm rfl)))

/-- A file that is loaded is marked already, is compiled and marked, or is refused. -/
theorem loadFile_loadEnds (sound : session.Sound) {path : String} {allowsSharedObject : Bool}
    (handled : (allowsSharedObject && Files.looksLikeSharedObject path) = false) :
    Ends (loadFile path allowsSharedObject) session (LoadEnds session path) := by
  unfold loadFile
  rw [handled]
  apply ends_get_bind
  dsimp only
  split
  · next marked =>
    obtain ⟨file, found⟩ := Option.isSome_iff_exists.mp marked
    unfold findLoaded? at found
    have fits := List.find?_some found
    simp only [decide_eq_true_eq] at fits
    have member := List.mem_reverse.mp (List.mem_of_find?_eq_some found)
    exact ends_pure (.known (List.mem_filter.mpr ⟨member, decide_eq_true fits.2⟩) fits.1)
  · cases reads : session.files.readText? path with
    | none => exact ends_pure (.refused (.refl session))
    | some text => exact loadSource_loadEnds sound reads

/-! ## Operations -/

/-- The operation does not change the files. -/
def Operation.keepsFiles : Operation → Bool
  | .changeFiles _ => false
  | _ => true

/-- The operation neither changes nor loads a file. -/
def Operation.sparesFiles : Operation → Bool
  | .changeFiles _ | .loadFile _ _ => false
  | _ => true

/-- Apart from loading files nothing marks them. -/
theorem keptByOperations_sameSources (start : Session) :
    KeptByOperations (fun operation => operation.sparesFiles = true) start.SameSources where
  toKeptByRuns := keptByRuns_sameSources start
  settled _ _ _ same := ⟨same.files, same.sources⟩
  filed _ spares := nomatch spares
  equipped _ _ same := same.withEngine rfl
  located name same := same.contained (Engine.locate_contained _ name)
  destructed same ran :=
    same.contained (Engine.runStaticDestructors_contained (fun _ _ => trivial) ran)
  told notification same := same.notify notification
  opened := by
    intro session name permanent same
    rcases loading : session.engine.loadLibrary session.files name permanent
      session.config.librarySearchPaths with ⟨opening, engine⟩
    rcases Engine.loadLibrary_opens loading with
      ⟨-, rfl⟩ | ⟨-, canonical, handle, -, -, -, marked, -⟩
    · exact same
    · refine ⟨same.files, Eq.trans ?_ same.sources⟩
      unfold sources
      dsimp only
      rw [marked, List.filter_append]
      exact List.append_nil _
  closed same ran := same.withEngine (Engine.unloadLibrary_loadedFiles ran)
  loaded spares := nomatch spares
  generated same := same.contained (Engine.emitPending_contained _)
  removed same _ _ ran := by
    have removes := same.contained
      ((Engine.emitPending_contained _).trans (Engine.unload_contained (fun _ _ => trivial) ran))
    exact ⟨removes.files, removes.sources⟩

/-- A source file is marked by loading it. -/
theorem perform_marks (sound : session.Sound) {operation : Operation}
    (keeps : operation.keepsFiles = true) :
    Ends (perform operation) session fun answer after => after.files = session.files ∧
      ∀ file ∈ after.sources, file ∈ session.sources ∨
        ∃ path allowsSharedObject transaction, operation = .loadFile path allowsSharedObject ∧
          answer = .verdict .success ∧ file.name = (session.sourceMark path).name ∧
          session.Loads path transaction after := by
  have kept := keptByOperations_sameSources session
  by_cases spares : operation.sparesFiles = true
  · refine (kept.perform_ends ⟨rfl, rfl⟩ spares).mono fun _ after same => ⟨same.files, ?_⟩
    exact fun file member => .inl (same.sources ▸ member)
  · obtain ⟨path, allowsSharedObject, rfl⟩ : ∃ path allowsSharedObject,
        operation = .loadFile path allowsSharedObject := by
      cases operation with
      | loadFile path allowsSharedObject => exact ⟨_, _, rfl⟩
      | changeFiles files => cases keeps
      | _ => exact absurd rfl spares
    apply ends_map
    by_cases handled : (allowsSharedObject && Files.looksLikeSharedObject path) = false
    · refine (loadFile_loadEnds sound handled).mono ?_
      rintro verdict after (⟨marked, named⟩ | ⟨loads, files⟩ | unchanged)
      · exact ⟨rfl, fun file member => .inl member⟩
      · refine ⟨files, fun file member => ?_⟩
        rw [loads.marks, List.mem_append, List.mem_singleton] at member
        refine member.imp_right ?_
        rintro rfl
        exact ⟨path, allowsSharedObject, _, rfl, rfl, rfl, loads⟩
      · refine ⟨unchanged.files, fun file member => .inl ?_⟩
        unfold sources at member ⊢
        rwa [unchanged.engine] at member
    · have shared := Bool.not_eq_false _ ▸ handled
      unfold loadFile
      rw [shared]
      apply ends_bind
      refine (kept.loadLibrary_ends ⟨rfl, rfl⟩ path false).mono ?_
      intro opening after same
      cases opening <;> exact ends_pure
        ⟨same.files, fun file member => .inl (same.sources ▸ member)⟩

/-- In the run a file of the name is loaded, with the transaction. -/
inductive LoadedBy (name : String) (transaction : Transaction) :
    List Operation → Session → Session → Prop where
  | now {path : String} {allowsSharedObject : Bool} {rest : List Operation}
      {answers : List Answer} {session between after : Session}
      (named : name = (session.sourceMark path).name)
      (loaded : perform (.loadFile path allowsSharedObject) session =
        .ok (.verdict .success, between))
      (loads : session.Loads path transaction between)
      (performed : performAll rest between = .ok (answers, after)) :
      LoadedBy name transaction (.loadFile path allowsSharedObject :: rest) session after
  | later {operation : Operation} {rest : List Operation} {answer : Answer}
      {session between after : Session}
      (performed : perform operation session = .ok (answer, between))
      (loaded : LoadedBy name transaction rest between after) :
      LoadedBy name transaction (operation :: rest) session after

/-- Every mark is there from the start, or was made by a load in the run. -/
theorem performAll_marks {operations : List Operation} (sound : session.Sound)
    (keeps : ∀ operation ∈ operations, operation.keepsFiles = true) :
    Ends (performAll operations) session fun _ after => after.files = session.files ∧
      ∀ file ∈ after.sources, file ∈ session.sources ∨
        ∃ transaction, LoadedBy file.name transaction operations session after := by
  induction operations generalizing session with
  | nil => exact ends_pure ⟨rfl, fun _ member => .inl member⟩
  | cons operation rest inductionHypothesis =>
    rw [List.forall_mem_cons] at keeps
    unfold performAll
    apply ends_bind
    intro answer between ran
    obtain ⟨files, marks⟩ := perform_marks sound keeps.1 answer between ran
    have soundBetween := perform_ends sound operation answer between ran
    apply ends_bind
    intro answers after performed
    obtain ⟨more, later⟩ := inductionHypothesis soundBetween keeps.2 answers after performed
    refine ends_pure ⟨more.trans files, fun file member => ?_⟩
    rcases later file member with before | ⟨transaction, loaded⟩
    · refine (marks file before).imp_right ?_
      rintro ⟨path, allowsSharedObject, transaction, rfl, rfl, named, loads⟩
      exact ⟨transaction, .now named ran loads performed⟩
    · exact .inr ⟨transaction, .later ran loaded⟩

/-- While the files stay as they are, loading a source file succeeds or changes nothing. After a
success, this load or an earlier one has compiled the file, and what the transaction of that load
declares is declared if it is logged. Nothing else is declared than what logged texts declare. -/
theorem a_loaded_file_is_declared_while_logged {config : Config} {source : LibrarySource}
    {files : Files.FileTree} {operations : List Operation} {answers : List Answer}
    {session after : Session} {path : String} {allowsSharedObject : Bool}
    {verdict : CompileVerdict}
    (keeps : ∀ operation ∈ operations, operation.keepsFiles = true)
    (performed : performAll operations (new config source files) = .ok (answers, session))
    (handled : (allowsSharedObject && Files.looksLikeSharedObject path) = false)
    (loading : perform (.loadFile path allowsSharedObject) session =
      .ok (.verdict verdict, after)) :
    (verdict = .failure ∧ session.Unchanged after ∨
      verdict = .success ∧ ∃ transaction,
        (session.Loads path transaction after ∨
          after = session ∧ LoadedBy (session.sourceMark path).name transaction operations
            (new config source files) session) ∧
        (after.log.get? transaction.id = some transaction →
          ∀ name, transaction.Declares name → after.compiler.isDeclared name = true)) ∧
      ∀ name, after.compiler.isDeclared name = true ↔
        ∃ transaction ∈ after.log.entries, transaction.Declares name := by
  have began := sound_new config source files
  obtain ⟨sound, names⟩ := keptByOperations_names.performAll_ends ⟨began, .empty⟩
    (fun _ _ => trivial) answers session performed
  obtain ⟨-, marks⟩ := performAll_marks began keeps answers session performed
  obtain ⟨soundAfter, namesAfter⟩ :=
    keptByOperations_names.perform_ends ⟨sound, names⟩ trivial _ after loading
  have declared := soundAfter.compiler.isDeclared_iff namesAfter
  have whileLogged : ∀ transaction : Transaction,
      after.log.get? transaction.id = some transaction →
      ∀ name, transaction.Declares name → after.compiler.isDeclared name = true :=
    fun transaction logged name declares =>
      (declared name).mpr ⟨transaction, TransactionLog.mem_of_get? logged, declares⟩
  have ends : Ends (perform (.loadFile path allowsSharedObject)) session fun answer after =>
      answer = .verdict verdict → LoadEnds session path verdict after := by
    refine ends_map ((loadFile_loadEnds sound handled).mono ?_)
    rintro _ after ended ⟨⟩
    exact ended
  refine ⟨?_, declared⟩
  cases ends _ after loading rfl with
  | refused unchanged => exact .inl ⟨rfl, unchanged⟩
  | loaded loads files => exact .inr ⟨rfl, _, .inl loads, whileLogged _⟩
  | known marked named =>
    rcases marks _ marked with initial | ⟨transaction, loaded⟩
    · exact absurd initial List.not_mem_nil
    · exact .inr ⟨rfl, transaction, .inr ⟨rfl, named ▸ loaded⟩, whileLogged transaction⟩

/-- A file is loaded, its transaction is unloaded, and the file is loaded again. That succeeds, and
the variable of the file stays undeclared. -/
theorem a_file_is_not_loaded_again_after_its_transaction_is_unloaded :
    let files := Files.FileTree.add [] "/a.c" (.file "int a = 1;".toUTF8)
    let first := Operation.loadFile "/a.c" false
    ∃ answers loaded again session after transaction,
      performAll [first] (new .standard .sharedObjects files) = .ok (answers, loaded) ∧
      loaded.compiler.isDeclared "a" = true ∧
      performAll [first, .unload ⟨0⟩] (new .standard .sharedObjects files) = .ok (again, session) ∧
      perform first session = .ok (.verdict .success, after) ∧
      LoadedBy "/a.c" transaction [first, .unload ⟨0⟩] (new .standard .sharedObjects files)
        session ∧
      after = session ∧ after.compiler.isDeclared "a" = false ∧ after.log.entries = [] ∧
      ¬∃ transaction ∈ after.log.entries, transaction.Declares "a" := by
  intro files first
  have facts :
      ((performAll [first] (new .standard .sharedObjects files)).toOption.bind fun once =>
        (performAll [first, .unload ⟨0⟩] (new .standard .sharedObjects files)).toOption.bind
          fun result => (perform first result.2).toOption.map fun loading =>
            decide (once.2.compiler.isDeclared "a" = true ∧ loading.1 = .verdict .success ∧
              loading.2.compiler.isDeclared "a" = false ∧ loading.2.log.entries = [] ∧
              (result.2.sourceMark "/a.c").name = "/a.c")) = some true := by decide +kernel
  obtain ⟨⟨answers, loaded⟩, once, facts⟩ := Option.bind_eq_some_iff.mp facts
  obtain ⟨⟨again, session⟩, performed, facts⟩ := Option.bind_eq_some_iff.mp facts
  obtain ⟨⟨_, after⟩, loading, facts⟩ := Option.map_eq_some_iff.mp facts
  obtain ⟨declared, rfl, undeclared, unlogged, named⟩ := of_decide_eq_true facts
  have performed := ok_of_toOption performed
  have loading := ok_of_toOption loading
  have keeps : ∀ operation ∈ [first, .unload ⟨0⟩], operation.keepsFiles = true := by
    simp [first, Operation.keepsFiles]
  obtain ⟨ends, exactly⟩ := a_loaded_file_is_declared_while_logged keeps performed rfl loading
  have absent := (exactly "a").not.mp (Bool.eq_false_iff.mp undeclared)
  rcases ends with ⟨failed, -⟩ | ⟨-, transaction, loads | ⟨same, loadedBy⟩, -⟩
  · cases failed
  · have logged := TransactionLog.mem_of_get? loads.logged
    rw [unlogged] at logged
    cases logged
  · exact ⟨answers, loaded, again, session, after, transaction, ok_of_toOption once, declared,
      performed, loading, named ▸ loadedBy, same, undeclared, unlogged, absent⟩

end IncrementalC.Session
