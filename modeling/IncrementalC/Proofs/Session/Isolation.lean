import IncrementalC.Proofs.Session.Performing

/-!
Contract: what operations between two chunks do to unfinished input.

A request to compile text continues the transaction that waits for more, whoever makes it. So an
operation that compiles text of its own, from a file or from the provider of definitions, puts the
first such text behind the unfinished input, and nothing waits afterwards. An operation that
compiles nothing leaves unfinished input as it is.

Owns:
- the first text that an operation compiles, if there is one;
- what operations leave of unfinished input, and what they log.

Does not own: submitted and cancelled input.
-/

namespace IncrementalC

/-! ## Requests -/

namespace Compiler

variable {compiler after : Compiler} {log logged : TransactionLog}

/-- The logged transaction holds what waits and, behind it, the text. If nothing waits, it holds
the text alone and has a number of its own. -/
def Collects (compiler : Compiler) (log : TransactionLog) (text : String) (entry : Transaction) :
    Prop :=
  match compiler.opened with
  | some waiting => entry.id = waiting.id ∧ entry.options = waiting.options ∧
      entry.source = Input.joinContinuation waiting.source text
  | none => log.nextNumber ≤ entry.id.number ∧ entry.source = text

theorem opened_settleReading {checker : Checker} {transaction : Transaction}
    {reading : Except SourceError (List Syntax.Item)}
    (settled : (settleReading checker log transaction reading).1.verdict ≠ .moreInputExpected) :
    (settleReading checker log transaction reading).2.1.opened = none := by
  rcases reading with (_ | diagnostic) | items
  · exact absurd rfl settled
  · rfl
  · simp only [settleReading]
    split <;> rfl

/-- What a request logs is its text, behind what waits. -/
theorem LogsNewest.collects {request : CompileRequest} {transaction : Transaction}
    (newest : LogsNewest compiler log request transaction after logged) :
    compiler.Collects log request.text transaction := by
  have begun := newest.begun
  have options := newest.options
  have source := newest.source
  unfold transactionFor at begun options source
  unfold Collects
  split
  · next waits =>
    rw [waits] at begun options source
    exact ⟨begun, options, source⟩
  · next unopened =>
    rw [unopened] at begun source
    refine ⟨Nat.le_of_eq (congrArg TransactionId.number begun).symm, source.trans ?_⟩
    exact String.ofList_toList

/-- A request logs at most one transaction, which collects its text. Unless it waits for more,
nothing does afterwards. -/
theorem compile_logs (sound : compiler.Sound log) {request : CompileRequest}
    {report : CompileReport}
    (answered : compiler.compile log request = .ok (report, after, logged)) :
    log.nextNumber ≤ logged.nextNumber ∧
      (report.verdict ≠ .moreInputExpected → after.opened = none) ∧
      ∀ entry ∈ logged.entries, entry ∈ log.entries ∨ compiler.Collects log request.text entry := by
  obtain ⟨transaction, allocated, chosen, -, settled, -, settles⟩ :=
    compile_eq_settleReading sound.toWellFormed request
  have more := (compiler.transactionFor_log log request).2
  rw [chosen] at more
  generalize Syntax.parseProgram _ = reading at settles
  have result := Except.ok.inj (answered.symm.trans settles)
  obtain ⟨number, -, -⟩ :=
    settleReading_keeps settled.table allocated (transaction.continuedBy request.text) reading
  rw [← result] at number
  refine ⟨Nat.le_trans more (Nat.le_of_eq number.symm), fun verdict => ?_, fun entry member => ?_⟩
  · have none := opened_settleReading (by rw [← result]; exact verdict)
    rwa [← result] at none
  · obtain ⟨appends, refuses⟩ := sound.compile_appends answered
    by_cases accepted : report.verdict = .success
    · obtain ⟨newest, -, logs⟩ := appends accepted
      rw [logs.entries] at member
      rcases List.mem_append.mp member with old | new
      · exact .inl old
      · obtain rfl := List.mem_singleton.mp new
        exact .inr logs.collects
    · exact .inl (refuses accepted ▸ member)

end Compiler

namespace Session

/-! ## What operations leave -/

/-- From one session to the other, buffered input and the provider stay, and what is logged anew
is `New`. -/
structure Keeps (New : Transaction → Prop) (session after : Session) : Prop where
  buffer : after.buffer = session.buffer
  provider : after.provider = session.provider
  number : session.log.nextNumber ≤ after.log.nextNumber
  entries : ∀ entry ∈ after.log.entries, entry ∈ session.log.entries ∨ New entry

/-- The transaction has a number of its own, and the provider has its text. -/
def Provided (session : Session) (entry : Transaction) : Prop :=
  session.log.nextNumber ≤ entry.id.number ∧
    ∃ provider ∈ session.provider, ∃ earlier name,
      provider.define earlier name = some entry.source

/-- Nothing is compiled: unfinished input is as it was, and nothing is logged. -/
structure Rests (session after : Session) : Prop extends
    Keeps (fun _ => False) session after where
  opened : after.compiler.opened = session.compiler.opened

/-- A text is compiled, behind what waits, and then texts of the provider, each by itself.
Nothing waits afterwards. -/
structure Takes (text : String) (session after : Session) : Prop extends
    Keeps (fun entry => session.compiler.Collects session.log text entry ∨
      session.Provided entry) session after where
  opened : after.compiler.opened = none

/-- The first of the texts, if there is one, is compiled. -/
def Leaves : Option String → Session → Session → Prop
  | none => Rests
  | some text => Takes text

variable {session between after : Session} {New More : Transaction → Prop}

theorem Keeps.trans (first : Keeps New session between) (second : Keeps More between after)
    (weaker : ∀ entry, More entry → New entry) : Keeps New session after where
  buffer := second.buffer.trans first.buffer
  provider := second.provider.trans first.provider
  number := Nat.le_trans first.number second.number
  entries entry member :=
    (second.entries entry member).elim (first.entries entry) fun more => .inr (weaker entry more)

theorem Keeps.mono (keeps : Keeps More session after) (weaker : ∀ entry, More entry → New entry) :
    Keeps New session after :=
  { keeps with entries := fun entry member => (keeps.entries entry member).imp_right (weaker entry) }

theorem Keeps.provided (keeps : Keeps New session between) {entry : Transaction}
    (provided : between.Provided entry) : session.Provided entry :=
  ⟨Nat.le_trans keeps.number provided.1, keeps.provider ▸ provided.2⟩

theorem Rests.refl (session : Session) : session.Rests session :=
  ⟨⟨rfl, rfl, Nat.le_refl _, fun _ member => .inl member⟩, rfl⟩

theorem Rests.trans (first : session.Rests between) (second : between.Rests after) :
    session.Rests after :=
  ⟨first.toKeeps.trans second.toKeeps fun _ => id, second.opened.trans first.opened⟩

theorem rests_withEngine (session : Session) (engine : Engine) :
    session.Rests { session with engine } :=
  ⟨⟨rfl, rfl, Nat.le_refl _, fun _ member => .inl member⟩, rfl⟩

theorem rests_notify (session : Session) (notification : Notification) :
    session.Rests (session.notify notification) := by
  unfold Session.notify
  split
  · exact .refl session
  · split
    · exact rests_withEngine session _
    · exact .refl session

theorem Rests.collects (rests : session.Rests between) {text : String} {entry : Transaction}
    (collects : between.compiler.Collects between.log text entry) :
    session.compiler.Collects session.log text entry := by
  unfold Compiler.Collects at collects ⊢
  rw [rests.opened] at collects
  split at collects
  · exact collects
  · exact ⟨Nat.le_trans rests.number collects.1, collects.2⟩

theorem Rests.leaves (rests : session.Rests between) {text : Option String}
    (leaves : Leaves text between after) : Leaves text session after := by
  cases text with
  | none => exact rests.trans leaves
  | some text =>
    refine ⟨(rests.toKeeps.mono nofun).trans leaves.toKeeps fun entry new => ?_, leaves.opened⟩
    exact new.imp rests.collects rests.toKeeps.provided

theorem Leaves.rests {text : Option String} (leaves : Leaves text session between)
    (rests : between.Rests after) : Leaves text session after := by
  cases text with
  | none => exact Rests.trans leaves rests
  | some text => exact ⟨leaves.toKeeps.trans rests.toKeeps nofun, rests.opened.trans leaves.opened⟩

/-! ## Compiling and running -/

theorem compile_keeps (sound : session.compiler.Sound session.log)
    (request : CompileRequest) :
    Ends (compile request) session fun report after =>
      Keeps (session.compiler.Collects session.log request.text) session after ∧
        (report.verdict ≠ .moreInputExpected → after.compiler.opened = none) := by
  apply ends_compile
  intro report compiler log answered
  obtain ⟨number, opened, entries⟩ := Compiler.compile_logs sound answered
  exact ⟨⟨rfl, rfl, number, entries⟩, opened⟩

theorem trackCommitted_rests (id : TransactionId) :
    Ends (trackCommitted id) session fun _ after => session.Rests after := by
  apply ends_modify
  split
  · exact .refl session
  · refine Rests.trans ?_ (rests_notify _ _)
    exact ⟨⟨rfl, rfl, Nat.le_refl _, fun _ member => .inl member⟩, rfl⟩

theorem abandonOpen_keeps :
    Ends abandonOpen session fun _ after =>
      Keeps (fun _ => False) session after ∧ after.compiler.opened = none := by
  apply ends_modify
  refine ⟨⟨rfl, rfl, Nat.le_refl _, fun _ member => .inl member⟩, ?_⟩
  unfold Compiler.abandonOpen
  split
  · assumption
  · rfl

theorem emitAndRun_rests (id : TransactionId) (entry : Option String) :
    Ends (emitAndRun id entry) session fun _ after => session.Rests after := by
  unfold emitAndRun
  apply ends_get_bind
  apply ends_withEngine
  intro execution engine _
  exact rests_withEngine session engine

theorem requestDefinitions_rests (provider : DefinitionProvider) (names : List String) :
    Ends (requestDefinitions provider names) session fun definitions after =>
      definitions =
          provider.definitions session.engine.host.trace.definitionsRequested names ∧
        session.Rests after := by
  unfold requestDefinitions
  apply ends_get_bind
  apply ends_bind
  apply ends_modify
  exact ends_pure ⟨rfl, rests_withEngine session _⟩

theorem declareDefinition_keeps (sound : session.Sound) (name source : String) :
    Ends (declareDefinition name source) session fun _ after =>
      Keeps (session.compiler.Collects session.log source) session after ∧
        after.compiler.opened = none := by
  unfold declareDefinition
  apply ends_get_bind
  apply ends_bind
  refine (compile_keeps sound.compiler _).mono ?_
  rintro report compiled ⟨keeps, opened⟩
  cases verdict : report.verdict with
  | success =>
    apply ends_bind
    refine (trackCommitted_rests _).mono fun _ tracked rests => ends_pure ?_
    refine ⟨keeps.trans rests.toKeeps nofun, rests.opened.trans (opened ?_)⟩
    rw [verdict]
    exact nofun
  | moreInputExpected =>
    apply ends_bind
    refine abandonOpen_keeps.mono fun _ abandoned kept => ends_pure ?_
    exact ⟨keeps.trans kept.1 nofun, kept.2⟩
  | failure =>
    refine ends_pure ⟨keeps, opened ?_⟩
    rw [verdict]
    exact nofun

/-- While nothing waits, definitions of the provider are compiled each by itself. -/
theorem declareDefinitions_keeps (definitions : List (String × String)) (sound : session.Sound)
    (unopened : session.compiler.opened = none)
    (known : ∀ definition ∈ definitions, ∃ provider ∈ session.provider, ∃ earlier,
      provider.define earlier definition.1 = some definition.2) :
    Ends (declareDefinitions definitions) session fun _ after =>
      Keeps session.Provided session after ∧ after.compiler.opened = none := by
  induction definitions generalizing session with
  | nil => exact ends_pure ⟨(Rests.refl session).toKeeps.mono nofun, unopened⟩
  | cons definition rest inductionHypothesis =>
    unfold declareDefinitions
    apply ends_bind
    intro declared between ran
    have soundBetween :=
      (declareDefinition_course sound.course definition.1 definition.2 declared between ran).sound
    obtain ⟨keeps, closed⟩ :=
      declareDefinition_keeps sound definition.1 definition.2 declared between ran
    have provided : Keeps session.Provided session between := by
      refine keeps.mono fun entry collects => ?_
      rw [Compiler.Collects, unopened] at collects
      obtain ⟨provider, installed, earlier, defines⟩ := known definition List.mem_cons_self
      exact ⟨collects.1, provider, installed, earlier, definition.1, by rw [defines, collects.2]⟩
    apply ends_bind
    refine (inductionHypothesis soundBetween closed ?_).mono ?_
    · intro later member
      rw [keeps.provider]
      exact known later (List.mem_cons_of_mem definition member)
    · rintro others after ⟨more, closedAfter⟩
      exact ends_pure ⟨provided.trans more fun entry => provided.provided, closedAfter⟩

/-- The first of several definitions is compiled behind what waits. -/
theorem declareDefinitions_leaves {definitions : List (String × String)} (sound : session.Sound)
    (known : ∀ definition ∈ definitions, ∃ provider ∈ session.provider, ∃ earlier,
      provider.define earlier definition.1 = some definition.2) :
    Ends (declareDefinitions definitions) session fun _ after =>
      Leaves (definitions.head?.map Prod.snd) session after := by
  cases definitions with
  | nil => exact ends_pure (.refl session)
  | cons definition rest =>
    unfold declareDefinitions
    apply ends_bind
    intro declared between ran
    have soundBetween :=
      (declareDefinition_course sound.course definition.1 definition.2 declared between ran).sound
    obtain ⟨keeps, closed⟩ :=
      declareDefinition_keeps sound definition.1 definition.2 declared between ran
    apply ends_bind
    refine (declareDefinitions_keeps rest soundBetween closed ?_).mono ?_
    · intro later member
      rw [keeps.provider]
      exact known later (List.mem_cons_of_mem definition member)
    · rintro others after ⟨more, closedAfter⟩
      refine ends_pure ⟨(keeps.mono fun entry => .inl).trans more fun entry provided => ?_, closedAfter⟩
      exact .inr (keeps.provided provided)

/-- Each definition is what the provider answered for its name. -/
theorem exists_define_of_mem {provider : DefinitionProvider} {earlier names : List String}
    {definition : String × String} (member : definition ∈ provider.definitions earlier names) :
    ∃ asked, provider.define asked definition.1 = some definition.2 := by
  induction names generalizing earlier with
  | nil => cases member
  | cons name rest inductionHypothesis =>
    unfold DefinitionProvider.definitions at member
    cases defines : provider.define earlier name with
    | none =>
      simp only [defines] at member
      exact inductionHypothesis member
    | some source =>
      simp only [defines] at member
      rcases List.mem_cons.mp member with rfl | others
      · exact ⟨earlier, defines⟩
      · exact inductionHypothesis others

/-- The first definition that a run of a function asks for and gets. -/
def firstDefinition? (session : Session) (id : TransactionId) (entry : Option String) :
    Option String :=
  match emitAndRun id entry session with
  | .ok (execution, ran) =>
    if execution.result = .unresolvedSymbols then
      session.provider.bind fun provider =>
        (provider.definitions ran.engine.host.trace.definitionsRequested
          execution.unresolved).head?.map Prod.snd
    else
      none
  | .error _ => none

theorem runWithDefinitions_leaves (sound : session.Sound) (id : TransactionId)
    (entry : Option String) :
    Ends (runWithDefinitions id entry) session fun _ after =>
      Leaves (session.firstDefinition? id entry) session after := by
  unfold runWithDefinitions
  apply ends_bind
  intro execution between ran
  have soundBetween := (emitAndRun_course sound.course id entry execution between ran).sound
  have rests := emitAndRun_rests id entry execution between ran
  rw [firstDefinition?, ran, ← rests.provider]
  dsimp only
  split
  · apply ends_get_bind
    cases installed : between.provider with
    | none => exact ends_pure rests
    | some provider =>
      rw [Option.bind_some]
      apply ends_bind
      intro definitions asked requested
      have soundAsked :=
        (requestDefinitions_course soundBetween.course provider _ definitions asked requested).sound
      obtain ⟨rfl, restsAsked⟩ := requestDefinitions_rests provider _ definitions asked requested
      apply ends_bind
      refine (declareDefinitions_leaves soundAsked ?_).mono fun declared final leaves => ?_
      · intro definition member
        exact ⟨provider, restsAsked.provider.trans installed, exists_define_of_mem member⟩
      · have leaves := (rests.trans restsAsked).leaves leaves
        split
        · exact ends_pure leaves
        · exact (emitAndRun_rests id entry).mono fun _ after rests => leaves.rests rests
  · exact ends_pure rests

theorem provided_of_firstDefinition? {id : TransactionId} {entry : Option String} {text : String}
    (first : session.firstDefinition? id entry = some text) :
    ∃ provider ∈ session.provider, ∃ earlier name, provider.define earlier name = some text := by
  unfold firstDefinition? at first
  split at first
  · split at first
    · obtain ⟨provider, installed, found⟩ := Option.bind_eq_some_iff.mp first
      obtain ⟨definition, head, rfl⟩ := Option.map_eq_some_iff.mp found
      obtain ⟨earlier, defines⟩ := exists_define_of_mem (List.mem_of_mem_head? head)
      exact ⟨provider, installed, earlier, definition.1, defines⟩
    · cases first
  · cases first

/-- While nothing waits, all definitions that a run asks for are compiled each by itself. -/
theorem Leaves.keeps_provided {id : TransactionId} {entry : Option String}
    (leaves : Leaves (session.firstDefinition? id entry) session after)
    (unopened : session.compiler.opened = none) :
    Keeps session.Provided session after ∧ after.compiler.opened = none := by
  cases first : session.firstDefinition? id entry with
  | none =>
    rw [first] at leaves
    exact ⟨Keeps.mono leaves.toKeeps nofun, leaves.opened.trans unopened⟩
  | some text =>
    rw [first] at leaves
    refine ⟨Keeps.mono leaves.toKeeps fun entry new => ?_, leaves.opened⟩
    rcases new with collects | provided
    · obtain ⟨provider, installed, earlier, name, defines⟩ := provided_of_firstDefinition? first
      rw [Compiler.Collects, unopened] at collects
      exact ⟨collects.1, provider, installed, earlier, name, by rw [defines, collects.2]⟩
    · exact provided

/-- Compiled text is put behind what waits, and definitions that its run asks for are compiled by
themselves. -/
theorem compileAndRun_keeps (sound : session.Sound) (text : String) (options : TransactionOptions)
    (entry : Option String) :
    Ends (compileAndRun text options entry) session fun outcome after =>
      Keeps (fun entry => session.compiler.Collects session.log text entry ∨
        session.Provided entry) session after ∧
      (outcome.verdict ≠ .moreInputExpected → after.compiler.opened = none) := by
  unfold compileAndRun
  apply ends_get_bind
  apply ends_bind
  intro report compiled ran
  obtain ⟨tracking, -⟩ := compile_course sound.course _ report compiled ran
  obtain ⟨keeps, opened⟩ := compile_keeps sound.compiler _ report compiled ran
  have keeps : Keeps (fun entry => session.compiler.Collects session.log text entry ∨
      session.Provided entry) session compiled := keeps.mono fun _ => .inl
  dsimp only
  split
  · exact ends_pure ⟨keeps, opened⟩
  · exact ends_pure ⟨keeps, opened⟩
  · rename_i succeeded
    apply ends_bind
    intro _ tracked tracks
    have soundTracked := (tracking succeeded _ tracked tracks).sound
    have rests := trackCommitted_rests _ _ tracked tracks
    have keeps := keeps.trans rests.toKeeps nofun
    have closed := rests.opened.trans (opened (by rw [succeeded]; exact nofun))
    apply ends_get_bind
    split
    · exact ends_pure ⟨keeps, fun _ => closed⟩
    · split
      · apply ends_bind
        refine (runWithDefinitions_leaves soundTracked _ _).mono fun execution after leaves => ?_
        obtain ⟨more, closedAfter⟩ := leaves.keeps_provided closed
        refine ends_pure ⟨keeps.trans more fun entry provided => ?_, fun _ => closedAfter⟩
        exact .inr (keeps.provided provided)
      · exact ends_pure ⟨keeps, fun _ => closed⟩

/-! ## Operations -/

theorem loadLibrary_rests (name : String) (permanent : Bool) :
    Ends (loadLibrary name permanent) session fun _ after => session.Rests after := by
  apply ends_modifyGet
  dsimp only
  split
  · exact (rests_withEngine session _).trans (rests_notify _ _)
  · exact rests_withEngine session _

theorem unloadLibrary_rests (name : String) :
    Ends (unloadLibrary name) session fun _ after => session.Rests after := by
  unfold unloadLibrary
  apply ends_get_bind
  apply ends_bind
  apply ends_withEngine
  intro result engine _
  dsimp only
  split
  · apply ends_bind
    apply ends_modify
    exact ends_pure ((rests_withEngine session engine).trans (rests_notify _ _))
  · exact ends_pure (rests_withEngine session engine)

theorem removeTransaction_rests (id : TransactionId) :
    Ends (removeTransaction id) session fun _ after => session.Rests after := by
  unfold removeTransaction
  apply ends_bind
  apply ends_withEngine
  intro count engine _
  have removed : session.Rests { session with
      engine, compiler := (session.compiler.unload session.log id).2.1,
      log := (session.compiler.unload session.log id).2.2 } := by
    unfold Compiler.unload
    split
    · exact rests_withEngine session engine
    · exact ⟨⟨rfl, rfl, Nat.le_refl _, fun _ member => .inl (List.mem_of_mem_filter member)⟩, rfl⟩
  apply ends_bind
  apply ends_modify
  apply ends_pure
  dsimp only
  split
  · exact removed
  · exact removed.trans (rests_notify _ _)

theorem unloadTransaction_rests (id : TransactionId) :
    Ends (unloadTransaction id) session fun _ after => session.Rests after := by
  unfold unloadTransaction
  apply ends_get_bind
  split
  · apply ends_bind
    apply ends_withEngine
    intro dependents engine _
    have asked := rests_withEngine session engine
    split
    · exact ends_pure asked
    · exact (removeTransaction_rests id).mono fun _ after removed => asked.trans removed
  · exact ends_pure (.refl session)

theorem loadSource_takes (sound : session.Sound) (name text : String) :
    Ends (loadSource name text) session fun _ after => session.Takes text after := by
  unfold loadSource
  apply ends_bind
  refine (compileAndRun_keeps sound text _ _).mono ?_
  rintro outcome compiled ⟨keeps, opened⟩
  split
  · rename_i succeeded
    apply ends_bind
    apply ends_modify
    have rests := rests_withEngine compiled
      { compiled.engine with loadedFiles := compiled.engine.loadedFiles ++ [⟨name, .source, none⟩] }
    exact ends_pure ⟨keeps.trans rests.toKeeps nofun, opened (by rw [succeeded]; exact nofun)⟩
  · apply ends_bind
    refine abandonOpen_keeps.mono fun _ abandoned kept => ends_pure ?_
    exact ⟨keeps.trans kept.1 nofun, kept.2⟩
  · rename_i failed
    exact ends_pure ⟨keeps, opened (by rw [failed]; exact nofun)⟩

/-- The text of a source file that is not loaded yet. -/
def unloadedText? (session : Session) (path : String) (allowsSharedObject : Bool) :
    Option String :=
  if allowsSharedObject && Files.looksLikeSharedObject path then none
  else if (findLoaded? session.engine.loadedFiles ((session.files.canonical? path).getD path)
      .source).isSome then none
  else session.files.readText? path

theorem loadFile_leaves (sound : session.Sound) (path : String) (allowsSharedObject : Bool) :
    Ends (loadFile path allowsSharedObject) session fun _ after =>
      Leaves (session.unloadedText? path allowsSharedObject) session after := by
  unfold loadFile unloadedText?
  split
  · apply ends_bind
    refine (loadLibrary_rests path false).mono fun opening after rests => ?_
    cases opening <;> exact ends_pure rests
  · apply ends_get_bind
    dsimp only
    split
    · exact ends_pure (.refl session)
    · cases session.files.readText? path with
      | none => exact ends_pure (.refl session)
      | some text => exact loadSource_takes sound _ text

/-- The transaction of the function that a run by name runs, if it can be run. -/
def runnable? (session : Session) (name : String) : Option TransactionId :=
  match session.compiler.checker.functionInfo? name with
  | none => none
  | some info =>
    if info.arity ≠ 0 then none
    else
      match info.definition with
      | none => none
      | some definition =>
        match session.engine.status? definition with
        | none | some .excluded => none
        | some _ => some definition

theorem runFunction_leaves (sound : session.Sound) (name : String) :
    Ends (runFunction name) session fun _ after =>
      Leaves ((session.runnable? name).bind fun id => session.firstDefinition? id (some name))
        session after := by
  have unfit : session.runnable? name = none → Leaves
      ((session.runnable? name).bind fun id => session.firstDefinition? id (some name))
        session session := by
    intro none
    rw [none]
    exact .refl session
  unfold runFunction
  apply ends_get_bind
  split
  · rename_i undeclared
    exact ends_pure (unfit (by simp only [runnable?, undeclared]))
  · rename_i info declared
    split
    · rename_i arity
      exact ends_pure (unfit (by simp only [runnable?, declared, if_pos arity]))
    · rename_i arity
      split
      · rename_i undefined
        exact ends_pure (unfit (by simp only [runnable?, declared, if_neg arity, undefined]))
      · rename_i definition defined
        split
        · rename_i absent
          exact ends_pure (unfit (by
            simp only [runnable?, declared, if_neg arity, defined, absent]))
        · rename_i excluded
          exact ends_pure (unfit (by
            simp only [runnable?, declared, if_neg arity, defined, excluded]))
        · rename_i status unexcluded known
          have runs : session.runnable? name = some definition := by
            simp only [runnable?, declared, if_neg arity, defined, known]
          rw [runs]
          exact runWithDefinitions_leaves sound definition (some name)

/-- The first text that an operation compiles, other than submitted text: that of a source file,
or the first definition that a run asks for and gets. -/
def firstText? : Operation → Session → Option String
  | .loadFile path allowsSharedObject, session => session.unloadedText? path allowsSharedObject
  | .runFunction name, session =>
    (session.runnable? name).bind fun id => session.firstDefinition? id (some name)
  | .emitAll id, session => session.firstDefinition? id none
  | _, _ => none

/-- The operations that are about unfinished input. -/
def Operation.handlesInput : Operation → Bool
  | .submit .. | .process .. | .cancelContinuation => true
  | _ => false

theorem perform_leaves (sound : session.Sound) {operation : Operation}
    (other : operation.handlesInput = false)
    (keepsProvider : ∀ provider, operation ≠ .setProvider provider) :
    Ends (perform operation) session fun _ after =>
      Leaves (firstText? operation session) session after := by
  have unchanged : ∀ {after : Session}, after.buffer = session.buffer →
      after.provider = session.provider → after.log = session.log →
      after.compiler = session.compiler → session.Rests after := by
    intro after buffer provider log compiler
    refine ⟨⟨buffer, provider, Nat.le_of_eq (congrArg TransactionLog.nextNumber log).symm, ?_⟩,
      congrArg Compiler.opened compiler⟩
    exact fun entry member => .inl (log ▸ member)
  cases operation with
  | submit mode text => cases other
  | process text => cases other
  | cancelContinuation => cases other
  | loadFile path allowsSharedObject => exact ends_map (loadFile_leaves sound path allowsSharedObject)
  | loadLibrary name permanent => exact ends_map (loadLibrary_rests name permanent)
  | unloadLibrary name => exact ends_map (unloadLibrary_rests name)
  | unload id => exact ends_map (unloadTransaction_rests id)
  | unloadLast =>
    apply ends_map
    unfold unloadLast
    apply ends_get_bind
    split
    · exact ends_pure (.refl session)
    · exact unloadTransaction_rests _
  | runFunction name => exact ends_map (runFunction_leaves sound name)
  | emitAll id => exact ends_map (runWithDefinitions_leaves sound id none)
  | addressOf name =>
    apply ends_map
    apply ends_withEngine
    exact fun _ engine _ => rests_withEngine session engine
  | runStaticDestructors =>
    apply ends_map
    apply ends_withEngine
    exact fun _ engine _ => rests_withEngine session engine
  | createUniqueName => exact ends_map (ends_modifyGet (unchanged rfl rfl rfl rfl))
  | addFunction name function => exact ends_map (ends_modify (unchanged rfl rfl rfl rfl))
  | setCreator creator => exact ends_map (ends_modify (unchanged rfl rfl rfl rfl))
  | setProvider provider => exact absurd rfl (keepsProvider provider)
  | setObserver observer => exact ends_map (ends_modify (unchanged rfl rfl rfl rfl))
  | setRawInput raw => exact ends_map (ends_modify (unchanged rfl rfl rfl rfl))
  | provideLibrary name library =>
    apply ends_bind
    apply ends_modify
    exact ends_pure (unchanged rfl rfl rfl rfl)
  | changeFiles files =>
    apply ends_bind
    apply ends_modify
    exact ends_pure (unchanged rfl rfl rfl rfl)

/-- An operation that is not about unfinished input keeps buffered input. It keeps the transaction
that waits for more, and logs nothing, if it compiles no text. Otherwise nothing waits afterwards:
its first text is compiled as the continuation of what waits, or in a transaction of its own if
nothing does, and only definitions of the provider are compiled behind it, each by itself. -/
theorem other_operations_continue_what_waits {config : Config} {source : LibrarySource}
    {files : Files.FileTree} {operations : List Operation} {answers : List Answer}
    {session after : Session} {operation : Operation} {answer : Answer}
    (performed : performAll operations (new config source files) = .ok (answers, session))
    (other : operation.handlesInput = false)
    (ended : perform operation session = .ok (answer, after)) :
    after.buffer = session.buffer ∧
    (firstText? operation session = none →
      after.compiler.opened = session.compiler.opened ∧
      ∀ entry ∈ after.log.entries, entry ∈ session.log.entries) ∧
    ∀ text, firstText? operation session = some text →
      after.compiler.opened = none ∧
      ∀ entry ∈ after.log.entries, entry ∈ session.log.entries ∨
        session.compiler.Collects session.log text entry ∨ session.Provided entry := by
  have sound := performAll_ends operations (sound_new config source files) answers session performed
  by_cases installs : ∃ provider, operation = .setProvider provider
  · obtain ⟨provider, rfl⟩ := installs
    cases ended
    exact ⟨rfl, fun _ => ⟨rfl, fun _ => id⟩, nofun⟩
  · have leaves := perform_leaves sound other (fun provider same => installs ⟨provider, same⟩)
      answer after ended
    cases first : firstText? operation session with
    | none =>
      rw [first] at leaves
      refine ⟨leaves.buffer, fun _ => ⟨leaves.opened, fun entry member => ?_⟩, nofun⟩
      exact (leaves.entries entry member).resolve_right id
    | some text =>
      rw [first] at leaves
      refine ⟨leaves.buffer, nofun, fun _ same => ?_⟩
      obtain rfl := Option.some.inj same
      exact ⟨leaves.opened, leaves.entries⟩

/-- A file is loaded while a function is unfinished. Its text is compiled inside the function, so
that neither is declared, and the rest of the function is then refused. -/
theorem a_file_is_loaded_into_a_function :
    let files := Files.FileTree.add [] "/a.c" (.file "int a = 1;".toUTF8)
    ∃ answers session waiting after last outcome,
      performAll [.submit .declare "int f() \x7b"] (new .standard .sharedObjects files) =
        .ok (answers, session) ∧
      session.compiler.opened = some waiting ∧ waiting.source = "int f() \x7b" ∧
      firstText? (.loadFile "/a.c" false) session = some "int a = 1;" ∧
      perform (.loadFile "/a.c" false) session = .ok (.verdict .failure, after) ∧
      after.compiler.opened = none ∧ after.log.entries = [] ∧
      perform (.submit .declare "return 1; \x7d") after = .ok (.outcome outcome, last) ∧
      outcome.verdict = .failure := by
  intro files
  have facts :
      ((performAll [.submit .declare "int f() \x7b"] (new .standard .sharedObjects files)).toOption.bind
        fun result => result.2.compiler.opened.bind fun waiting =>
          (perform (.loadFile "/a.c" false) result.2).toOption.bind fun loading =>
            (submit .declare "return 1; \x7d" loading.2).toOption.map fun last =>
              decide (waiting.source = "int f() \x7b" ∧
                firstText? (.loadFile "/a.c" false) result.2 = some "int a = 1;" ∧
                loading.1 = .verdict .failure ∧ loading.2.log.entries = [] ∧
                last.1.verdict = .failure)) = some true := by decide +kernel
  obtain ⟨⟨answers, session⟩, performed, facts⟩ := Option.bind_eq_some_iff.mp facts
  obtain ⟨waiting, waits, facts⟩ := Option.bind_eq_some_iff.mp facts
  obtain ⟨⟨answer, after⟩, loads, facts⟩ := Option.bind_eq_some_iff.mp facts
  obtain ⟨⟨outcome, last⟩, submitted, facts⟩ := Option.map_eq_some_iff.mp facts
  obtain ⟨source, first, rfl, unlogged, refused⟩ := of_decide_eq_true facts
  have performed := ok_of_toOption performed
  have loads := ok_of_toOption loads
  have submitted := ok_of_toOption submitted
  obtain ⟨-, -, takes⟩ := other_operations_continue_what_waits performed rfl loads
  obtain ⟨closed, -⟩ := takes _ first
  refine ⟨answers, session, waiting, after, last, outcome, performed, waits, source, first, loads,
    closed, unlogged, ?_, refused⟩
  change (Answer.outcome <$> submit .declare "return 1; \x7d") after = _
  change (submit .declare "return 1; \x7d" after >>= fun ended => _) = _
  rw [submitted]
  rfl

end Session

end IncrementalC
