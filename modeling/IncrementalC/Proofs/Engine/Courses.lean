import IncrementalC.Engine.Unloading
import IncrementalC.Proofs.Engine.WellFormed

/-!
Contract: the courses that the operations of an engine can take.

Each operation is opened here once: what it does when it comes to its end, case by case,
with what decides between the cases. What holds of an operation is proved along its course.

Owns: initializing, executing, running at-exit actions and closing libraries, as relations
between the engine before and the engine afterwards.

Does not own: what holds along a course, or that an operation comes to its end.
-/

namespace IncrementalC

/-- The execution that a run of an entry is reported as. -/
def Execution.ofRun : Except Fault Value → Execution
  | .error fault => .failedWith fault
  | .ok value => { result := .success, value := some value }

namespace Engine

/-! ## Initialization -/

/-- Initializers run in order, up to the first that fails. -/
inductive RunsInitializers (owner : TransactionId) :
    Engine → List Machine.InitializerEntry → Option Fault → Engine → Prop where
  | nil (engine : Engine) : RunsInitializers owner engine [] none engine
  | failed {engine after : Engine} {entry : Machine.InitializerEntry}
      {rest : List Machine.InitializerEntry} {cause : Fault}
      (ran : engine.runFor .initializer (.transaction owner) (some entry.declaration)
        entry.address [] = .ok (.error cause, after)) :
      RunsInitializers owner engine (entry :: rest) (some cause) after
  | passed {engine between after : Engine} {entry : Machine.InitializerEntry}
      {rest : List Machine.InitializerEntry} {value : Value} {fault : Option Fault}
      (ran : engine.runFor .initializer (.transaction owner) (some entry.declaration)
        entry.address [] = .ok (.ok value, between))
      (others : RunsInitializers owner between rest fault after) :
      RunsInitializers owner engine (entry :: rest) fault after

/-- Waiting transactions are taken in order: one that lacks a name is passed over, and all
others are initialized, up to the target if that fails. -/
inductive InitializesAll (target : TransactionId) :
    Engine → Blockage → List Waiting → Option Execution → Engine → Prop where
  | nil (engine : Engine) (blockage : Blockage) :
      InitializesAll target engine blockage []
        (if blockage.includesTarget then some (.lacking blockage.missing) else none) engine
  | blocked {engine searched after : Engine} {blockage : Blockage} {next : Waiting}
      {rest : List Waiting} {missing : NameSet} {outcome : Option Execution}
      (search : engine.missingNames ((engine.machine.initializersOf next.module).map
        Machine.InitializerEntry.address) = (missing, searched))
      (lacks : missing ≠ [] ∨ ∃ name ∈ next.references, name ∈ blockage.symbols)
      (others : InitializesAll target searched
        { symbols := blockage.symbols ++ next.symbols,
          missing := NameSet.insertAll missing blockage.missing,
          includesTarget := blockage.includesTarget || decide (next.id = target) }
        rest outcome after) :
      InitializesAll target engine blockage (next :: rest) outcome after
  | failed {engine searched after : Engine} {blockage : Blockage} {next : Waiting}
      {rest : List Waiting} {cause : Fault}
      (search : engine.missingNames ((engine.machine.initializersOf next.module).map
        Machine.InitializerEntry.address) = ([], searched))
      (free : ∀ name ∈ next.references, name ∉ blockage.symbols)
      (ran : (searched.mark next.id).runInitializers next.id
        (engine.machine.initializersOf next.module) = .ok (some cause, after))
      (isTarget : next.id = target) :
      InitializesAll target engine blockage (next :: rest) (some (.failedWith cause)) after
  | taken {engine searched between after : Engine} {blockage : Blockage} {next : Waiting}
      {rest : List Waiting} {fault : Option Fault} {outcome : Option Execution}
      (search : engine.missingNames ((engine.machine.initializersOf next.module).map
        Machine.InitializerEntry.address) = ([], searched))
      (free : ∀ name ∈ next.references, name ∉ blockage.symbols)
      (ran : (searched.mark next.id).runInitializers next.id
        (engine.machine.initializersOf next.module) = .ok (fault, between))
      (goesOn : fault = none ∨ next.id ≠ target)
      (others : InitializesAll target between blockage rest outcome after) :
      InitializesAll target engine blockage (next :: rest) outcome after

section

variable {engine after : Engine}

theorem runInitializers_course {owner : TransactionId} {entries : List Machine.InitializerEntry}
    {fault : Option Fault} (ran : engine.runInitializers owner entries = .ok (fault, after)) :
    RunsInitializers owner engine entries fault after := by
  induction entries generalizing engine with
  | nil =>
    cases ran
    exact .nil _
  | cons entry rest inductionHypothesis =>
    unfold runInitializers at ran
    split at ran
    · cases ran
    · next run =>
      cases ran
      exact .failed run
    · next run => exact .passed run (inductionHypothesis ran)

theorem RunsInitializers.continues {owner : TransactionId}
    {entries : List Machine.InitializerEntry} {fault : Option Fault}
    (runs : RunsInitializers owner engine entries fault after) : engine.Continues after := by
  induction runs with
  | nil engine => exact .refl engine
  | failed ran => exact (runFor_eq ran).1
  | passed ran _ inductionHypothesis => exact (runFor_eq ran).1.trans inductionHypothesis

theorem initializeAll_course {target : TransactionId} {blockage : Blockage}
    {waiting : List Waiting} {outcome : Option Execution}
    (ran : initializeAll target engine blockage waiting = .ok (outcome, after)) :
    InitializesAll target engine blockage waiting outcome after := by
  induction waiting generalizing engine blockage with
  | nil =>
    cases ran
    exact .nil _ _
  | cons next rest inductionHypothesis =>
    rcases search : engine.missingNames ((engine.machine.initializersOf next.module).map
      Machine.InitializerEntry.address) with ⟨missing, searched⟩
    simp only [initializeAll, search] at ran
    split at ran
    · next lacks =>
      simp only [Bool.or_eq_true, Bool.not_eq_true', List.isEmpty_eq_false_iff, List.any_eq_true,
        decide_eq_true_eq] at lacks
      exact .blocked search lacks (inductionHypothesis ran)
    · next complete =>
      simp only [Bool.or_eq_true, Bool.not_eq_true', List.isEmpty_eq_false_iff, List.any_eq_true,
        decide_eq_true_eq, not_or, not_not, not_exists, not_and] at complete
      obtain ⟨rfl, free⟩ := complete
      split at ran
      · cases ran
      · next run =>
        split at ran
        · next isTarget =>
          cases ran
          exact .failed search free run isTarget
        · next isOther => exact .taken search free run (.inr isOther) (inductionHypothesis ran)
      · next run => exact .taken search free run (.inl rfl) (inductionHypothesis ran)

end

/-! ## Executions -/

/-- An entry is run once it is found and nothing that it reaches is missing. -/
inductive RunsEntry (engine : Engine) (id : TransactionId) (origin : Option DeclarationId)
    (entry : String) : Execution → Engine → Prop where
  | unknown (absent : engine.machine.resolve? entry = none) :
      RunsEntry engine id origin entry (.ended .unknownFunction) engine
  | lacking {address : Address} {missing : NameSet} {searched : Engine}
      (found : engine.machine.resolve? entry = some address)
      (search : engine.missingNames [address] = (missing, searched)) (lacks : missing ≠ []) :
      RunsEntry engine id origin entry (.lacking missing) searched
  | ran {address : Address} {searched after : Engine} {result : Except Fault Value}
      (found : engine.machine.resolve? entry = some address)
      (search : engine.missingNames [address] = ([], searched))
      (run : searched.runFor (.entry entry) (.transaction id) origin address [] =
        .ok (result, after)) :
      RunsEntry engine id origin entry (.ofRun result) after

/-- A logged transaction is executed: its code is generated if it waits for that, what
waits for its initializers is initialized, and its entry runs if it has one. -/
inductive EmitsAndRuns (engine : Engine) (log : TransactionLog) (id : TransactionId) :
    Option String → Execution → Engine → Prop where
  | unknown {entry : Option String} (absent : log.get? id = none) :
      EmitsAndRuns engine log id entry (.ended .unknownFunction) engine
  | untracked {entry : Option String} (state : engine.state? id = none) :
      EmitsAndRuns engine log id entry (.ended .functionNotCompiled) engine
  | excluded {entry : Option String} (state : engine.state? id = some .excluded) :
      EmitsAndRuns engine log id entry (.ended .noCodeGeneration) engine
  | refused {entry : Option String} {execution : Execution}
      (refused : engine.emitPending.refusal? id entry = some execution) :
      EmitsAndRuns engine log id entry execution engine.emitPending
  | halted {entry : Option String} {execution : Execution} {after : Engine}
      (accepted : engine.emitPending.refusal? id entry = none)
      (initialized : engine.emitPending.runStaticInitializers id = .ok (some execution, after)) :
      EmitsAndRuns engine log id entry execution after
  | initialized {after : Engine} (accepted : engine.emitPending.refusal? id none = none)
      (initialized : engine.emitPending.runStaticInitializers id = .ok (none, after)) :
      EmitsAndRuns engine log id none (.ended .success) after
  | entered {transaction : Transaction} {name : String} {execution : Execution}
      {between after : Engine} (logged : log.get? id = some transaction)
      (accepted : engine.emitPending.refusal? id (some name) = none)
      (initialized : engine.emitPending.runStaticInitializers id = .ok (none, between))
      (ran : between.runEntry id transaction.declarations.getLast? name =
        .ok (execution, after)) :
      EmitsAndRuns engine log id (some name) execution after

section

variable {engine after : Engine}

theorem runEntry_course {id : TransactionId} {origin : Option DeclarationId} {entry : String}
    {execution : Execution} (ran : engine.runEntry id origin entry = .ok (execution, after)) :
    engine.RunsEntry id origin entry execution after := by
  unfold runEntry at ran
  split at ran
  · next absent =>
    cases ran
    exact .unknown absent
  · next address found =>
    rcases search : engine.missingNames [address] with ⟨missing, searched⟩
    simp only [search] at ran
    split at ran
    · next complete =>
      obtain rfl := List.isEmpty_iff.mp complete
      split at ran
      · cases ran
      · next run =>
        cases ran
        exact .ran found search run
      · next run =>
        cases ran
        exact .ran found search run
    · next lacks =>
      cases ran
      exact .lacking found search fun none => lacks (List.isEmpty_iff.mpr none)

theorem emitAndRun_course {log : TransactionLog} {id : TransactionId} {entry : Option String}
    {execution : Execution} (ran : engine.emitAndRun log id entry = .ok (execution, after)) :
    engine.EmitsAndRuns log id entry execution after := by
  unfold emitAndRun at ran
  split at ran
  · next absent =>
    cases ran
    exact .unknown absent
  · next transaction logged =>
    split at ran
    · cases ran
    · split at ran
      · next state =>
        cases ran
        exact .untracked state
      · next state =>
        cases ran
        exact .excluded state
      · dsimp only at ran
        split at ran
        · next refused =>
          cases ran
          exact .refused refused
        · next accepted =>
          split at ran
          · cases ran
          · next initialized =>
            cases ran
            exact .halted accepted initialized
          · next initialized =>
            cases entry with
            | none =>
              cases ran
              exact .initialized accepted initialized
            | some name => exact .entered logged accepted initialized ran

end

/-! ## At-exit actions -/

/-- An action has its turn. -/
inductive Turn (engine : Engine) (action : AtExitAction) : Engine → Prop where
  | native {destructor : Destructor} (callback : action.callback = .native destructor) :
      Turn engine action { engine with host.trace := destructor.run engine.host.trace }
  | called {name : String} {address : Address} {argument : Value} {after : Engine}
      {result : Except Fault Value} (callback : action.callback = .generated name address argument)
      (live : engine.machine.isLive address.module = true)
      (ran : engine.runFor .atExit action.owner action.origin address [argument] =
        .ok (result, after)) :
      Turn engine action after
  /-- The code that the action calls is gone. -/
  | skipped {name : String} {address : Address} {argument : Value}
      (callback : action.callback = .generated name address argument)
      (gone : engine.machine.isLive address.module = false) :
      Turn engine action engine

/-- The actions have their turns, one after the other. -/
inductive Turns : Engine → List AtExitAction → Engine → Prop where
  | nil (engine : Engine) : Turns engine [] engine
  | cons {engine between after : Engine} {action : AtExitAction} {rest : List AtExitAction}
      (turn : engine.Turn action between) (others : Turns between rest after) :
      Turns engine (action :: rest) after

/-- A library is closed, unless it is unknown or stays open for good. -/
inductive UnloadsLibrary (engine : Engine) (name : String) : Unloading → Engine → Prop where
  | unknown (absent : engine.host.resolver.findLibrary? name = none) :
      UnloadsLibrary engine name .notFound engine
  | permanent {canonical : String} {library : OpenLibrary}
      (found : engine.host.resolver.findLibrary? name = some (canonical, library))
      (permanent : library.permanent = true) : UnloadsLibrary engine name .permanent engine
  | closed {canonical : String} {library : OpenLibrary} {count : Nat} {between : Engine}
      (found : engine.host.resolver.findLibrary? name = some (canonical, library))
      (closable : library.permanent = false)
      (ran : engine.runOwned (.library canonical) = .ok (count, between)) :
      UnloadsLibrary engine name .unloaded
        { between with host.resolver := (between.host.resolver.closeLibrary canonical).2 }

section

variable {engine after : Engine}

theorem runAtExit_course {actions : List AtExitAction}
    (ran : engine.runAtExit actions = .ok after) : engine.Turns actions after := by
  induction actions generalizing engine with
  | nil =>
    cases ran
    exact .nil _
  | cons action rest inductionHypothesis =>
    unfold runAtExit at ran
    cases callback : action.callback with
    | native destructor =>
      rw [callback] at ran
      exact .cons (.native callback) (inductionHypothesis ran)
    | generated name address argument =>
      simp only [callback] at ran
      split at ran
      · next live =>
        split at ran
        · cases ran
        · next run => exact .cons (.called callback live run) (inductionHypothesis ran)
      · next gone =>
        exact .cons (.skipped callback (Bool.eq_false_iff.mpr gone)) (inductionHypothesis ran)

theorem runOwned_course {owner : AtExitOwner} {count : Nat}
    (ran : engine.runOwned owner = .ok (count, after)) :
    { engine with host.atExit := (engine.host.atExit.takeOwned owner).2 }.runAtExit
      (engine.host.atExit.takeOwned owner).1 = .ok after := by
  unfold runOwned at ran
  dsimp only at ran
  split at ran
  · cases ran
  · next run =>
    cases ran
    exact run

theorem runStaticDestructors_course {count : Nat}
    (ran : engine.runStaticDestructors = .ok (count, after)) :
    { engine with host.atExit := engine.host.atExit.drain.2 }.runAtExit
      engine.host.atExit.drain.1 = .ok after := by
  unfold runStaticDestructors at ran
  dsimp only at ran
  split at ran
  · cases ran
  · next run =>
    cases ran
    exact run

theorem unload_course {id : TransactionId} {count : Nat}
    (ran : engine.unload id = .ok (count, after)) :
    ∃ between, engine.runOwned (.transaction id) = .ok (count, between) ∧
      between.dropCode id = after := by
  unfold unload at ran
  split at ran
  · cases ran
  · next run =>
    cases ran
    exact ⟨_, run, rfl⟩

theorem unloadLibrary_course {name : String} {result : Unloading}
    (ran : engine.unloadLibrary name = .ok (result, after)) :
    engine.UnloadsLibrary name result after := by
  unfold unloadLibrary at ran
  split at ran
  · next absent =>
    cases ran
    exact .unknown absent
  · next canonical library found =>
    split at ran
    · next permanent =>
      cases ran
      exact .permanent found permanent
    · next closable =>
      split at ran
      · cases ran
      · next run =>
        cases ran
        exact .closed found (Bool.eq_false_iff.mpr closable) run

end

end Engine

end IncrementalC
