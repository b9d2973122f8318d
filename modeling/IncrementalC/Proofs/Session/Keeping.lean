import IncrementalC.Proofs.Engine.Steps
import IncrementalC.Proofs.Session.Running
import IncrementalC.Proofs.Session.Sound

/-!
Contract: what every operation keeps.

Apart from compiling and running, an interpreter loads and unloads, and takes settings. What is
kept by each of these is kept by every operation, and by all runs of operations.

Owns: how unloading a transaction ends, properties that operations keep, and that runs of operations
keep them.

Does not own: what is kept.
-/

namespace IncrementalC.Session

variable {session : Session}

/-! ## Unloading -/

/-- How unloading a transaction ends. -/
inductive UnloadEnds (session : Session) (id : TransactionId) : Unloading → Session → Prop where
  | unknown (absent : session.log.contains id = false) : UnloadEnds session id .notFound session
  /-- The policy keeps the transaction for those that use it. -/
  | refused (logged : session.log.contains id = true)
      (policy : session.config.unloadPolicy = .rejectLiveDependents)
      (used : (session.engine.dependents id).1 ≠ []) :
      UnloadEnds session id (.hasDependents (session.engine.dependents id).1)
        { session with engine := session.engine.emitPending }
  | removed {count : Nat} {engine : Engine} {transaction : Transaction}
      (logged : session.log.get? id = some transaction)
      (spared : session.config.unloadPolicy = .rejectLiveDependents →
        (session.engine.dependents id).1 = [])
      (ran : session.engine.emitPending.unload id = .ok (count, engine)) :
      UnloadEnds session id .unloaded ((session.remove id engine).notify (.unloaded transaction))

theorem unloadTransaction_unloadEnds (session : Session) (id : TransactionId) :
    Ends (unloadTransaction id) session (UnloadEnds session id) := by
  unfold unloadTransaction
  apply ends_get_bind
  split
  · next logged =>
    apply ends_bind
    apply ends_withEngine
    intro dependents engine asked
    have told := Except.ok.inj asked
    obtain rfl : (session.engine.dependents id).1 = dependents := congrArg Prod.fst told
    obtain rfl : session.engine.emitPending = engine :=
      (session.engine.dependents_eq id).symm.trans (congrArg Prod.snd told)
    split
    · next refused =>
      simp only [Bool.and_eq_true, Bool.not_eq_true', List.isEmpty_eq_false_iff,
        decide_eq_true_eq] at refused
      exact ends_pure (.refused logged refused.2 refused.1)
    · next allowed =>
      simp only [Bool.and_eq_true, Bool.not_eq_true', List.isEmpty_eq_false_iff,
        decide_eq_true_eq, not_and'] at allowed
      obtain ⟨transaction, found⟩ := Option.isSome_iff_exists.mp logged
      unfold removeTransaction
      apply ends_bind
      apply ends_withEngine
      intro count engine ran
      apply ends_bind
      apply ends_modify
      apply ends_pure
      have removes : (session.compiler.unload session.log id).1 = some transaction := by
        unfold Compiler.unload
        rw [found]
      dsimp only
      rw [removes]
      exact .removed found (fun policy => not_not.mp (allowed policy)) ran
  · next absent => exact ends_pure (.unknown (Bool.eq_false_iff.mpr absent))

/-! ## Operations -/

/-- A property of sessions that is kept by everything that the allowed operations do. -/
structure KeptByOperations (allowed : Operation → Prop) (holds : Session → Prop) : Prop
    extends KeptByRuns holds where
  settled : ∀ {session : Session} (raw : Bool) (provider : Option DefinitionProvider)
    (observer : Option Observer), holds session →
    holds { session with config.rawInput := raw, provider, observer }
  filed : ∀ {session : Session} (files : Files.FileTree), allowed (.changeFiles files) →
    holds session → holds { session with files }
  equipped : ∀ {session : Session} (resolver : Resolver),
    resolver.libraries = session.engine.host.resolver.libraries → holds session →
    holds { session with engine.host.resolver := resolver }
  located : ∀ {session : Session} (name : String), holds session →
    holds { session with engine := (session.engine.locate name).2 }
  destructed : ∀ {session : Session} {count : Nat} {engine : Engine}, holds session →
    session.engine.runStaticDestructors = .ok (count, engine) → holds { session with engine }
  told : ∀ {session : Session} (notification : Notification), holds session →
    holds (session.notify notification)
  opened : ∀ {session : Session} (name : String) (permanent : Bool), holds session →
    holds { session with engine := (session.engine.loadLibrary session.files name permanent
      session.config.librarySearchPaths).2 }
  closed : ∀ {session : Session} {name : String} {result : Unloading} {engine : Engine},
    holds session → session.engine.unloadLibrary name = .ok (result, engine) →
    holds { session with engine }
  loaded : ∀ {session : Session} {path text : String} {allowsSharedObject : Bool},
    allowed (.loadFile path allowsSharedObject) → holds session →
    session.files.readText? path = some text →
    Ends (loadSource ((session.files.canonical? path).getD path) text) session fun _ => holds
  generated : ∀ {session : Session}, holds session →
    holds { session with engine := session.engine.emitPending }
  removed : ∀ {session : Session} {id : TransactionId} {count : Nat} {engine : Engine},
    holds session → session.log.contains id = true →
    (session.config.unloadPolicy = .rejectLiveDependents →
      (session.engine.dependents id).1 = []) →
    session.engine.emitPending.unload id = .ok (count, engine) → holds (session.remove id engine)

/-- A source file is compiled, and marked as loaded if it is accepted. -/
theorem KeptByRuns.loadSource_ends {holds : Session → Prop} (kept : KeptByRuns holds)
    (now : holds session) {name : String}
    (marked : ∀ {session : Session}, holds session → holds { session with
      engine.loadedFiles := session.engine.loadedFiles ++ [⟨name, .source, none⟩] })
    (text : String) : Ends (loadSource name text) session fun _ => holds := by
  unfold loadSource
  apply ends_bind
  refine (kept.compileAndRun_ends now _ _ _).mono ?_
  intro outcome compiled compiling
  split
  · apply ends_bind
    apply ends_modify
    exact ends_pure (marked compiling)
  · apply ends_bind
    exact (kept.abandonOpen_ends compiling).mono fun _ _ final => ends_pure final
  · exact ends_pure compiling

namespace KeptByOperations

variable {allowed : Operation → Prop} {holds : Session → Prop}

theorem loadLibrary_ends (kept : KeptByOperations allowed holds) (now : holds session)
    (name : String) (permanent : Bool) :
    Ends (loadLibrary name permanent) session fun _ => holds := by
  have opened := kept.opened name permanent now
  apply ends_modifyGet
  dsimp only
  split
  · exact kept.told _ opened
  · exact opened

theorem unloadLibrary_ends (kept : KeptByOperations allowed holds) (now : holds session)
    (name : String) : Ends (unloadLibrary name) session fun _ => holds := by
  unfold unloadLibrary
  apply ends_get_bind
  apply ends_bind
  apply ends_withEngine
  intro result engine ran
  have closed := kept.closed now ran
  dsimp only
  split
  · apply ends_bind
    apply ends_modify
    exact ends_pure (kept.told _ closed)
  · exact ends_pure closed

theorem loadFile_ends (kept : KeptByOperations allowed holds) (now : holds session) {path : String}
    {allowsSharedObject : Bool} (may : allowed (.loadFile path allowsSharedObject)) :
    Ends (loadFile path allowsSharedObject) session fun _ => holds := by
  unfold loadFile
  split
  · apply ends_bind
    refine (kept.loadLibrary_ends now path false).mono ?_
    intro opening after final
    cases opening <;> exact ends_pure final
  · apply ends_get_bind
    dsimp only
    split
    · exact ends_pure now
    · cases read : session.files.readText? path with
      | none => exact ends_pure now
      | some text => exact kept.loaded may now read

theorem unloadTransaction_ends (kept : KeptByOperations allowed holds) (now : holds session)
    (id : TransactionId) : Ends (unloadTransaction id) session fun _ => holds := by
  refine (unloadTransaction_unloadEnds session id).mono ?_
  intro unloading after unloads
  cases unloads with
  | unknown absent => exact now
  | refused logged policy used => exact kept.generated now
  | removed logged spared ran =>
    have contained := Option.isSome_iff_exists.mpr ⟨_, logged⟩
    exact kept.told _ (kept.removed now contained spared ran)

theorem unloadLast_ends (kept : KeptByOperations allowed holds) (now : holds session) :
    Ends unloadLast session fun _ => holds := by
  unfold unloadLast
  apply ends_get_bind
  split
  · exact ends_pure now
  · exact kept.unloadTransaction_ends now _

theorem perform_ends (kept : KeptByOperations allowed holds) (now : holds session)
    {operation : Operation} (may : allowed operation) :
    Ends (perform operation) session fun _ => holds := by
  have settles : ∀ (raw : Bool) (provider : Option DefinitionProvider)
      (observer : Option Observer), holds { session with
        config.rawInput := raw, provider, observer } :=
    fun raw provider observer => kept.settled raw provider observer now
  cases operation with
  | submit mode text => exact kept.toKeptByRuns.perform_ends now rfl
  | process text => exact kept.toKeptByRuns.perform_ends now rfl
  | cancelContinuation => exact kept.toKeptByRuns.perform_ends now rfl
  | runFunction name => exact kept.toKeptByRuns.perform_ends now rfl
  | emitAll id => exact kept.toKeptByRuns.perform_ends now rfl
  | loadFile path allowsSharedObject =>
    exact ends_map (kept.loadFile_ends now may)
  | loadLibrary name permanent => exact ends_map (kept.loadLibrary_ends now name permanent)
  | unloadLibrary name => exact ends_map (kept.unloadLibrary_ends now name)
  | unload id => exact ends_map (kept.unloadTransaction_ends now id)
  | unloadLast => exact ends_map (kept.unloadLast_ends now)
  | addressOf name =>
    apply ends_map
    apply ends_withEngine
    intro location engine located
    obtain rfl : (session.engine.locate name).2 = engine :=
      congrArg Prod.snd (Except.ok.inj located)
    exact kept.located name now
  | runStaticDestructors =>
    apply ends_map
    apply ends_withEngine
    intro count engine ran
    exact kept.destructed now ran
  | createUniqueName =>
    exact ends_map (ends_modifyGet (kept.aside _ session.buffer session.output now))
  | addFunction name function => exact ends_map (ends_modify (kept.equipped _ rfl now))
  | setCreator creator => exact ends_map (ends_modify (kept.equipped _ rfl now))
  | setProvider provider => exact ends_map (ends_modify (settles _ _ _))
  | setObserver observer => exact ends_map (ends_modify (settles _ _ _))
  | setRawInput raw => exact ends_map (ends_modify (settles _ _ _))
  | provideLibrary name library =>
    apply ends_bind
    apply ends_modify
    exact ends_pure (kept.equipped _ rfl now)
  | changeFiles files =>
    apply ends_bind
    apply ends_modify
    exact ends_pure (kept.filed files may now)

theorem performAll_ends (kept : KeptByOperations allowed holds) (now : holds session)
    {operations : List Operation} (may : ∀ operation ∈ operations, allowed operation) :
    Ends (performAll operations) session fun _ => holds := by
  induction operations generalizing session with
  | nil => exact ends_pure now
  | cons operation rest inductionHypothesis =>
    rw [List.forall_mem_cons] at may
    unfold performAll
    apply ends_bind
    refine (kept.perform_ends now may.1).mono ?_
    intro answer between begun
    apply ends_bind
    exact (inductionHypothesis begun may.2).mono fun _ _ final => ends_pure final

end KeptByOperations

end IncrementalC.Session
