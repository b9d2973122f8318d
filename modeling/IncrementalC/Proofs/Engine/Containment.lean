import IncrementalC.Proofs.Engine.AtExit

/-!
Contract: what working with code leaves alone.

Code that runs calls native functions and registers actions. It opens no library, marks no file as
loaded and tells observers nothing, and what it registers is owned by whom it runs for.

Owns: contained changes of an engine, that all work with code is contained, and what changes when
a library is opened or closed.

Does not own: what work with code does to the code itself.
-/

namespace IncrementalC

/-- What observers were told in a trace, newest first. -/
def Trace.notifications (trace : Trace) : List Notification :=
  trace.filterMap fun event =>
    match event with
    | .notified notification => some notification
    | .called _ _ | .atExitRegistered _ _ _ | .destructorRan _ | .functionRequested _
    | .definitionRequested _ => none

namespace Trace

theorem notifications_resolve (resolver : Resolver) (name : String) (trace : Trace) :
    notifications (resolver.resolve name trace).2.2 = trace.notifications := by
  unfold Resolver.resolve
  cases resolver.known? name with
  | some function => rfl
  | none =>
    cases resolver.creator with
    | none => rfl
    | some create =>
      dsimp only
      cases create name <;> rfl

theorem notifications_call (function : NativeFunction) (arguments : List Int64) (trace : Trace) :
    notifications (function.call arguments trace).2 = trace.notifications := by
  cases function with
  | host function => rfl
  | foreign name code =>
    cases code with
    | none => rfl
    | some code =>
      unfold NativeFunction.call
      dsimp only
      split <;> rfl

end Trace

namespace Engine

/-- Libraries, loaded files and what observers were told stay. If all actions had owners that are
`known`, all have. -/
structure Contained (known : AtExitOwner → Prop) (before after : Engine) : Prop where
  libraries : after.host.resolver.libraries = before.host.resolver.libraries
  loadedFiles : after.loadedFiles = before.loadedFiles
  notifications : after.host.trace.notifications = before.host.trace.notifications
  owners : (∀ action ∈ before.host.atExit, known action.owner) →
    ∀ action ∈ after.host.atExit, known action.owner

namespace Contained

variable {known : AtExitOwner → Prop} {before between after : Engine}

theorem refl (engine : Engine) : engine.Contained known engine := ⟨rfl, rfl, rfl, fun all => all⟩

theorem trans (first : before.Contained known between) (second : between.Contained known after) :
    before.Contained known after where
  libraries := second.libraries.trans first.libraries
  loadedFiles := second.loadedFiles.trans first.loadedFiles
  notifications := second.notifications.trans first.notifications
  owners all := second.owners (first.owners all)

end Contained

variable {known : AtExitOwner → Prop} {engine after : Engine}

/-! ## Runs -/

/-- What a run registers is owned by whom it runs for. -/
theorem runFor_contained {purpose : Purpose} {owner : AtExitOwner} {origin : Option DeclarationId}
    {address : Address} {arguments : List Value} {result : Except Fault Value}
    (owned : known owner)
    (ran : engine.runFor purpose owner origin address arguments = .ok (result, after)) :
    engine.Contained known after where
  libraries := (runFor_eq ran).1.host.resolver.libraries
  loadedFiles := (runFor_eq ran).1.loadedFiles
  notifications := by
    have keeps : (hostServices owner origin).Keeps fun host =>
        host.trace.notifications = engine.host.trace.notifications := by
      refine ⟨fun name values host same => ?_, fun _ _ _ _ same => same⟩
      refine Eq.trans ?_ same
      have asked := Trace.notifications_resolve host.resolver name host.trace
      simp only [hostServices]
      rcases answer : host.resolver.resolve name host.trace with ⟨_ | function, resolver, trace⟩
      · rw [answer] at asked
        exact asked
      · rw [answer] at asked
        exact (Trace.notifications_call function values trace).trans asked
    have kept := keeps.run engine.machine address arguments engine.host rfl
    unfold runFor at ran
    rcases finished : engine.machine.run (hostServices owner origin) address arguments engine.host
      with ⟨(_ | _) | value, machine, host⟩
    · rw [finished] at ran kept
      cases ran
      exact kept
    · rw [finished] at ran
      cases ran
    · rw [finished] at ran kept
      cases ran
      exact kept
  owners all action member := by
    rw [runFor_atExit ran] at member
    rcases List.mem_append.mp member with new | old
    · rw [owner_of_mem_registrations new]
      exact owned
    · exact all action old

theorem resolvesNatively_contained (engine : Engine) (name : String) :
    engine.Contained known (engine.resolvesNatively name).2 where
  libraries := (engine.host.resolver.resolve_continues name engine.host.trace).libraries
  loadedFiles := rfl
  notifications := Trace.notifications_resolve _ _ _
  owners all := all

theorem missingNames_contained {roots : List Address} {missing : NameSet}
    (search : engine.missingNames roots = (missing, after)) : engine.Contained known after := by
  obtain rfl : (engine.missingNames roots).2 = after := congrArg Prod.snd search
  exact missingNames_keeps engine roots (engine.Contained known)
    (fun other name contained => contained.trans (other.resolvesNatively_contained name)) (.refl _)

/-! ## Executions -/

theorem emitPending_contained (engine : Engine) : engine.Contained known engine.emitPending :=
  ⟨rfl, rfl, rfl, fun all => all⟩

theorem mark_contained (engine : Engine) (id : TransactionId) :
    engine.Contained known (engine.mark id) :=
  ⟨rfl, rfl, rfl, fun all => all⟩

theorem runInitializers_contained {id : TransactionId} {entries : List Machine.InitializerEntry}
    {fault : Option Fault} (owned : known (.transaction id))
    (ran : engine.runInitializers id entries = .ok (fault, after)) :
    engine.Contained known after := by
  replace ran := runInitializers_course ran
  induction ran with
  | nil engine => exact .refl engine
  | failed run => exact runFor_contained owned run
  | passed run others contained => exact (runFor_contained owned run).trans contained

theorem initializeAll_contained {target : TransactionId} {blockage : Blockage}
    {waiting : List Waiting} {outcome : Option Execution}
    (owned : ∀ next ∈ waiting, known (.transaction next.id))
    (ran : engine.initializeAll target blockage waiting = .ok (outcome, after)) :
    engine.Contained known after := by
  replace ran := initializeAll_course ran
  induction ran with
  | nil engine blockage => exact .refl engine
  | blocked search lacks others contained =>
    rw [List.forall_mem_cons] at owned
    exact (missingNames_contained search).trans (contained owned.2)
  | failed search free run isTarget =>
    rw [List.forall_mem_cons] at owned
    exact (missingNames_contained search).trans
      ((mark_contained _ _).trans (runInitializers_contained owned.1 run))
  | taken search free run goesOn others contained =>
    rw [List.forall_mem_cons] at owned
    have initializing := (mark_contained _ _).trans (runInitializers_contained owned.1 run)
    exact (missingNames_contained search).trans (initializing.trans (contained owned.2))

theorem runEntry_contained {id : TransactionId} {origin : Option DeclarationId} {entry : String}
    {execution : Execution} (owned : known (.transaction id))
    (ran : engine.runEntry id origin entry = .ok (execution, after)) :
    engine.Contained known after := by
  cases runEntry_course ran with
  | unknown absent => exact .refl engine
  | lacking found search lacks => exact missingNames_contained search
  | ran found search run => exact (missingNames_contained search).trans (runFor_contained owned run)

theorem emitStates_fst (machine : Machine) (states : List (TransactionId × CodeState)) :
    (emitStates machine states).2.map Prod.fst = states.map Prod.fst := by
  induction states generalizing machine with
  | nil => rfl
  | cons entry rest inductionHypothesis =>
    unfold emitStates
    split <;> exact congrArg (entry.1 :: ·) (inductionHypothesis _)

theorem mem_of_mem_waiting {next : Waiting} (member : next ∈ engine.waiting) :
    next.id ∈ engine.states.map Prod.fst := by
  obtain ⟨⟨id, state⟩, inStates, waits⟩ := List.mem_filterMap.mp member
  dsimp only at waits
  split at waits
  · obtain rfl := Option.some.inj waits
    exact List.mem_map_of_mem inStates
  · cases waits

/-- The transactions that have code own what is registered while one of them is executed. -/
theorem emitAndRun_contained {log : TransactionLog} {id : TransactionId} {entry : Option String}
    {execution : Execution} (owned : ∀ id ∈ engine.states.map Prod.fst, known (.transaction id))
    (ran : engine.emitAndRun log id entry = .ok (execution, after)) :
    engine.Contained known after := by
  have generating : engine.Contained known engine.emitPending := engine.emitPending_contained
  have sameIds : engine.emitPending.states.map Prod.fst = engine.states.map Prod.fst :=
    emitStates_fst engine.machine engine.states
  have waiting : ∀ next ∈ engine.emitPending.waiting, known (.transaction next.id) :=
    fun next member => owned next.id (sameIds ▸ mem_of_mem_waiting member)
  cases emitAndRun_course ran with
  | unknown absent => exact .refl engine
  | untracked state => exact .refl engine
  | excluded state => exact .refl engine
  | refused refused => exact generating
  | halted accepted initialized =>
    exact generating.trans (initializeAll_contained waiting initialized)
  | initialized accepted initialized =>
    exact generating.trans (initializeAll_contained waiting initialized)
  | entered logged accepted initialized ran =>
    have own : known (.transaction id) := by
      apply owned
      rw [← sameIds]
      unfold refusal? at accepted
      split at accepted
      · cases accepted
      · next state =>
        have found := CodeStates.mem_of_find (state?_eq_find _ id ▸ state)
        exact List.mem_map_of_mem found
      · cases accepted
    exact generating.trans
      ((initializeAll_contained waiting initialized).trans (runEntry_contained own ran))

theorem locate_contained (engine : Engine) (name : String) :
    engine.Contained known (engine.locate name).2 := by
  have generating : engine.Contained known engine.emitPending := engine.emitPending_contained
  unfold locate
  dsimp only
  split
  · exact generating
  · exact generating.trans (resolvesNatively_contained _ name)

/-! ## At-exit actions -/

theorem Turn.contained {action : AtExitAction} (owned : known action.owner)
    (turn : engine.Turn action after) : engine.Contained known after := by
  cases turn with
  | native callback => exact ⟨rfl, rfl, rfl, fun all => all⟩
  | called callback live run => exact runFor_contained owned run
  | skipped callback gone => exact .refl engine

theorem runAtExit_contained {actions : List AtExitAction}
    (owned : ∀ action ∈ actions, known action.owner)
    (ran : engine.runAtExit actions = .ok after) : engine.Contained known after := by
  replace ran := runAtExit_course ran
  induction ran with
  | nil engine => exact .refl engine
  | cons turn others contained =>
    rw [List.forall_mem_cons] at owned
    exact (turn.contained owned.1).trans (contained owned.2)

/-- Handing out what is due leaves fewer actions. -/
theorem handOut_contained (engine : Engine) (owner : Option AtExitOwner) :
    engine.Contained known (engine.handOut owner) := by
  refine ⟨rfl, rfl, rfl, fun all action member => all action ?_⟩
  change action ∈ (engine.host.atExit.handOut owner).2 at member
  rw [AtExitRegistry.handOut_eq] at member
  exact List.mem_of_mem_filter member

/-- Actions that are run own what they register. -/
theorem runOwned_contained {owner : AtExitOwner} {count : Nat}
    (owned : ∀ action ∈ engine.host.atExit, known action.owner)
    (ran : engine.runOwned owner = .ok (count, after)) : engine.Contained known after :=
  (handOut_contained engine (some owner)).trans (runAtExit_contained
    (fun action member => owned action (List.mem_of_mem_filter member)) (runOwned_course ran))

theorem runStaticDestructors_contained {count : Nat}
    (owned : ∀ action ∈ engine.host.atExit, known action.owner)
    (ran : engine.runStaticDestructors = .ok (count, after)) : engine.Contained known after :=
  (handOut_contained engine none).trans
    (runAtExit_contained owned (runStaticDestructors_course ran))

theorem unload_contained {id : TransactionId} {count : Nat}
    (owned : ∀ action ∈ engine.host.atExit, known action.owner)
    (ran : engine.unload id = .ok (count, after)) : engine.Contained known after := by
  obtain ⟨between, run, rfl⟩ := unload_course ran
  exact (runOwned_contained owned run).trans ⟨rfl, rfl, rfl, fun all => all⟩

/-! ## Libraries -/

/-- A library that is opened is the last one and is marked as loaded, and nobody is told. -/
theorem loadLibrary_opens {files : Files.FileTree} {name : String} {permanent : Bool}
    {searchPaths : List String} {opening : LibraryOpening}
    (loads : engine.loadLibrary files name permanent searchPaths = (opening, after)) :
    (opening ≠ .success ∧ after = engine) ∨
      (opening = .success ∧ ∃ canonical handle,
        engine.host.resolver.loader.locate? files name searchPaths = some canonical ∧
        engine.host.resolver.findLibrary? canonical = none ∧
        after.host.resolver.libraryNames = engine.host.resolver.libraryNames ++ [canonical] ∧
        after.loadedFiles = engine.loadedFiles ++ [⟨canonical, .dynamicLibrary, some handle⟩] ∧
        after.host.trace = engine.host.trace) := by
  unfold loadLibrary at loads
  split at loads
  · cases loads
    exact .inl ⟨by decide, rfl⟩
  · next canonical located =>
    split at loads
    · cases loads
      exact .inl ⟨by decide, rfl⟩
    · next unopened =>
      split at loads
      · cases loads
        exact .inl ⟨by decide, rfl⟩
      · next handle resolver opens =>
        cases loads
        have unknown := Option.not_isSome_iff_eq_none.mp unopened
        have last := Resolver.libraryNames_openLibrary (Resolver.notMem_libraryNames unknown) opens
        exact .inr ⟨rfl, canonical, handle, located, unknown, last, rfl, rfl⟩

/-- A library that is opened owns what is registered then. -/
theorem loadLibrary_owners {files : Files.FileTree} {name : String} {permanent : Bool}
    {searchPaths : List String} (libraries : ∀ canonical, known (.library canonical))
    (owned : ∀ action ∈ engine.host.atExit, known action.owner) :
    ∀ action ∈ (engine.loadLibrary files name permanent searchPaths).2.host.atExit,
      known action.owner := by
  unfold loadLibrary
  split
  · exact owned
  · split
    · exact owned
    · split
      · exact owned
      · intro action member
        rw [registerDestructors_atExit] at member
        rcases List.mem_append.mp member with new | old
        · obtain ⟨destructor, -, rfl⟩ := List.mem_map.mp (List.mem_reverse.mp new)
          exact libraries _
        · exact owned action old

theorem unloadLibrary_owners {name : String} {result : Unloading}
    (owned : ∀ action ∈ engine.host.atExit, known action.owner)
    (ran : engine.unloadLibrary name = .ok (result, after)) :
    ∀ action ∈ after.host.atExit, known action.owner := by
  cases unloadLibrary_course ran with
  | unknown absent => exact owned
  | permanent found permanent => exact owned
  | closed found closable run => exact (runOwned_contained owned run).owners owned

/-- A library that is closed stays marked as loaded. -/
theorem unloadLibrary_loadedFiles {name : String} {result : Unloading}
    (ran : engine.unloadLibrary name = .ok (result, after)) :
    after.loadedFiles = engine.loadedFiles := by
  cases unloadLibrary_course ran with
  | unknown absent => rfl
  | permanent found permanent => rfl
  | @closed canonical library count between found closable run =>
    have contained : engine.Contained (fun _ => True) between :=
      runOwned_contained (fun _ _ => trivial) run
    exact contained.loadedFiles

/-- A library that is closed was open, and nobody is told. -/
theorem unloadLibrary_closes {name : String} {result : Unloading}
    (ran : engine.unloadLibrary name = .ok (result, after)) :
    (result ≠ .unloaded ∧ after = engine) ∨
      (result = .unloaded ∧ ∃ canonical, engine.libraryName? name = some canonical ∧
        canonical ∈ engine.host.resolver.libraryNames ∧
        after.host.resolver.libraryNames =
          engine.host.resolver.libraryNames.filter (· ≠ canonical) ∧
        after.host.trace.notifications = engine.host.trace.notifications) := by
  cases unloadLibrary_course ran with
  | unknown absent => exact .inl ⟨nofun, rfl⟩
  | permanent found permanent => exact .inl ⟨nofun, rfl⟩
  | @closed canonical library count between found closable run =>
    have contained : engine.Contained (fun _ => True) between :=
      runOwned_contained (fun _ _ => trivial) run
    refine .inr ⟨rfl, canonical, congrArg (Option.map Prod.fst) found,
      Resolver.mem_libraryNames found, ?_, ?_⟩
    · refine (Resolver.libraryNames_closeLibrary _ canonical).trans ?_
      unfold Resolver.libraryNames
      rw [contained.libraries]
    · exact contained.notifications

end Engine

end IncrementalC
