import IncrementalC.Proofs.Engine.Initialization

/-!
Contract: executions and removals keep journals in order.

Registered actions call functions, so that running them never runs an initializer.

Owns: running entries and executing transactions, at-exit actions, removing code, and opening and
closing libraries, in engines with a journal in order.

Does not own: which executions and removals a session asks for.
-/

namespace IncrementalC.Engine

variable {engine before after : Engine}

/-! ## Executions -/

/-- Running an entry of a transaction that counts as initialized. -/
theorem runEntry_succeeds {id : TransactionId} {origin : Option DeclarationId} {entry : String}
    {module : ModuleId} {symbols references : List String} {execution : Execution}
    (recorded : engine.Recorded)
    (state : engine.state? id = some (.emitted module true symbols references))
    (defined : entry ∈ symbols)
    (blocked : ∀ other otherModule otherSymbols otherReferences,
      engine.state? other = some (.emitted otherModule false otherSymbols otherReferences) →
      engine.IsBlocked other)
    (ran : engine.runEntry id origin entry = .ok (execution, after)) : engine.Succeeds after := by
  cases runEntry_course ran with
  | unknown absent => exact recorded.succeeds
  | lacking found search lacks =>
    obtain rfl := congrArg Prod.snd search
    exact recorded.missingNames _
  | @ran address searched _ result found search run =>
    have provided := engine.provided_of_missingNames [address]
    have searching := recorded.missingNames [address]
    obtain ⟨continued, -⟩ := engine.missingNames_continues [address]
    rw [search] at provided searching continued
    have own : address.module = module := by
      obtain ⟨unit, live, rfl, -⟩ :=
        recorded.wellFormed.states.holds _ (CodeStates.mem_of_find state)
      have here := recorded.wellFormed.machine.resolve?_eq (Machine.mem_of_module? live) defined
      exact Module.address?_module (here.symm.trans found)
    have foundAfter := (continued.machine.resolve? entry).trans found
    have stands := searching.recorded.wellFormed.machine.stands foundAfter
    have checked :=
      checked_of_provided searching.recorded.wellFormed.machine stands (provided rfl) run
    have running : searched.Succeeds after := by
      apply searching.recorded.runFor run
      · rintro _ - other otherModule otherSymbols otherReferences waits
        refine continued.blocked
          (blocked other _ _ _ ((continued.state? other).symm.trans waits)) ?_
        exact fun earlier _ => continued.state? earlier
      · refine ⟨id, symbols, references, rfl, ?_, defined, foundAfter, checked⟩
        rw [own]
        exact (continued.state? id).trans state
    exact searching.trans running

/-- What is not refused is generated code that defines the entry. -/
theorem defines_of_accepted {id : TransactionId} {entry : String}
    (accepted : engine.refusal? id (some entry) = none) :
    ∃ module initialized symbols references,
      engine.state? id = some (.emitted module initialized symbols references) ∧
        entry ∈ symbols := by
  unfold refusal? at accepted
  split at accepted
  · cases accepted
  · next module initialized symbols references state =>
    dsimp only at accepted
    split at accepted
    · next defined => exact ⟨module, initialized, symbols, references, state, defined⟩
    · cases accepted
  · cases accepted

/-- An execution keeps the journal in order. -/
theorem emitAndRun_succeeds {log : TransactionLog} {id : TransactionId} {entry : Option String}
    {execution : Execution} (recorded : engine.Recorded)
    (ran : engine.emitAndRun log id entry = .ok (execution, after)) : engine.Succeeds after := by
  have emitting := recorded.emitPending
  have initialization : ∀ {outcome : Option Execution} {initialized : Engine},
      engine.emitPending.runStaticInitializers id = .ok (outcome, initialized) →
      Initialized id engine.emitPending outcome initialized :=
    runStaticInitializers_initialized emitting.recorded
      (state?_emitPending_ne_pending recorded.wellFormed)
  cases emitAndRun_course ran with
  | unknown absent => exact recorded.succeeds
  | untracked state => exact recorded.succeeds
  | excluded state => exact recorded.succeeds
  | refused refused => exact emitting
  | halted accepted initialized => exact emitting.trans (initialization initialized).succeeds
  | initialized accepted initialized => exact emitting.trans (initialization initialized).succeeds
  | entered logged accepted initialized run =>
    have initializing := initialization initialized
    obtain ⟨module, flag, symbols, references, state, defined⟩ := defines_of_accepted accepted
    obtain ⟨now, stateAfter⟩ := initializing.keepsCode id module flag symbols references state
    apply (emitting.trans initializing.succeeds).trans
    cases now with
    | false => exact absurd stateAfter (initializing.target rfl _ _ _)
    | true =>
      exact runEntry_succeeds initializing.succeeds.recorded stateAfter defined
        (initializing.blocked rfl) run

/-! ## Changes of the host -/

/-- A change of the host that brings no action but those that call functions. -/
theorem Recorded.withHost (recorded : engine.Recorded) (host : HostState)
    (loadedFiles : List LoadedFile)
    (registered : ∀ action ∈ host.atExit, action.CallsFunctions) :
    engine.Succeeds { engine with host, loadedFiles } := by
  have wellFormed : { engine with host, loadedFiles }.WellFormed :=
    { recorded.wellFormed.toCodeStands with registered }
  exact recorded.unnoted wellFormed rfl rfl

theorem Recorded.withSameActions (recorded : engine.Recorded) (host : HostState)
    (loadedFiles : List LoadedFile) (same : host.atExit = engine.host.atExit) :
    engine.Succeeds { engine with host, loadedFiles } := by
  apply recorded.withHost
  rw [same]
  exact recorded.wellFormed.registered

/-! ## At-exit actions -/

theorem Turn.succeeds {action : AtExitAction} (recorded : engine.Recorded)
    (calls : action.CallsFunctions) (turn : engine.Turn action after) : engine.Succeeds after := by
  cases turn with
  | native callback => exact recorded.withSameActions _ engine.loadedFiles rfl
  | called callback live run =>
    exact recorded.runFor run nofun (calls _ _ _ callback)
  | skipped callback gone => exact recorded.succeeds

theorem runAtExit_succeeds {actions : List AtExitAction} (recorded : engine.Recorded)
    (calls : ∀ action ∈ actions, action.CallsFunctions)
    (ran : engine.runAtExit actions = .ok after) : engine.Succeeds after := by
  replace ran := runAtExit_course ran
  induction ran with
  | nil engine => exact recorded.succeeds
  | cons turn others inductionHypothesis =>
    rw [List.forall_mem_cons] at calls
    have succeeds := turn.succeeds recorded calls.1
    exact succeeds.trans (inductionHypothesis succeeds.recorded calls.2)

theorem runOwned_succeeds {owner : AtExitOwner} {count : Nat} (recorded : engine.Recorded)
    (ran : engine.runOwned owner = .ok (count, after)) : engine.Succeeds after := by
  have taking := recorded.withHost
    { engine.host with atExit := (engine.host.atExit.takeOwned owner).2 } engine.loadedFiles
    fun action member => recorded.wellFormed.registered action (List.mem_of_mem_filter member)
  refine taking.trans (runAtExit_succeeds taking.recorded ?_ (runOwned_course ran))
  intro action member
  exact recorded.wellFormed.registered action (List.mem_of_mem_filter member)

theorem runStaticDestructors_succeeds {count : Nat} (recorded : engine.Recorded)
    (ran : engine.runStaticDestructors = .ok (count, after)) : engine.Succeeds after := by
  have taking := recorded.withHost { engine.host with atExit := engine.host.atExit.drain.2 }
    engine.loadedFiles fun _ absent => absurd absent List.not_mem_nil
  exact taking.trans (runAtExit_succeeds taking.recorded recorded.wellFormed.registered
    (runStaticDestructors_course ran))

/-! ## Transactions -/

theorem unload_drops {id : TransactionId} {count : Nat} (recorded : engine.Recorded)
    (ran : engine.unload id = .ok (count, after)) : Drops id engine after := by
  obtain ⟨between, run, rfl⟩ := unload_course ran
  have running := runOwned_succeeds recorded run
  exact running.drops (running.recorded.dropCode id)

theorem dependents_succeeds (recorded : engine.Recorded) (id : TransactionId) :
    engine.Succeeds (engine.dependents id).2 := by
  unfold dependents
  dsimp only
  split <;> exact recorded.emitPending

theorem locate_succeeds (recorded : engine.Recorded) (name : String) :
    engine.Succeeds (engine.locate name).2 := by
  have emitting := recorded.emitPending
  unfold locate
  dsimp only
  split
  · exact emitting
  · obtain ⟨-, -, journal, continued⟩ := engine.emitPending.resolvesNatively_eq name
    have resolving := emitting.recorded.unnoted
      (continued.wellFormed emitting.recorded.wellFormed) continued.states journal
    exact emitting.trans resolving

/-! ## Libraries -/

theorem registerDestructors_callsFunctions (recorded : engine.Recorded) (canonical : String)
    (handle : LibraryHandle) :
    ∀ action ∈ (engine.registerDestructors canonical handle).host.atExit,
      action.CallsFunctions := by
  unfold registerDestructors
  generalize engine.host.resolver.loader.destructors handle = destructors
  have registered := recorded.wellFormed.registered
  generalize engine.host.atExit = registry at registered
  dsimp only
  induction destructors generalizing registry with
  | nil => exact registered
  | cons destructor rest inductionHypothesis =>
    apply inductionHypothesis
    intro action member
    rcases List.mem_cons.mp member with rfl | old
    · exact fun _ _ _ absent => by cases absent
    · exact registered action old

theorem loadLibrary_succeeds (recorded : engine.Recorded) (files : Files.FileTree) (name : String)
    (permanent : Bool) (searchPaths : List String) :
    engine.Succeeds (engine.loadLibrary files name permanent searchPaths).2 := by
  unfold loadLibrary
  split
  · exact recorded.succeeds
  · next canonical located =>
    split
    · exact recorded.succeeds
    · split
      · exact recorded.succeeds
      · next handle resolver opened =>
        have opening := recorded.withSameActions { engine.host with resolver } engine.loadedFiles rfl
        exact recorded.withHost _ _
          (registerDestructors_callsFunctions opening.recorded canonical handle)

theorem unloadLibrary_succeeds {name : String} {result : Unloading} (recorded : engine.Recorded)
    (ran : engine.unloadLibrary name = .ok (result, after)) : engine.Succeeds after := by
  cases unloadLibrary_course ran with
  | unknown absent => exact recorded.succeeds
  | permanent found permanent => exact recorded.succeeds
  | closed found closable run =>
    have running := runOwned_succeeds recorded run
    exact running.trans (running.recorded.withSameActions _ _ rfl)

end IncrementalC.Engine
