import Mathlib.Logic.Relation
import IncrementalC.Proofs.Engine.Courses
import IncrementalC.Proofs.Engine.Search
import IncrementalC.Proofs.Machine.Descent

/-!
Contract: the steps of the work with code that is tracked.

Whatever an engine is asked for, it generates the code that waits, marks code as
initialized, runs code, or changes what no code depends on. Only a commit tracks code,
and only an unload drops it.

Owns: the steps, that each operation of an engine is a sequence of them, and how modules
come and go.

Does not own: the order of the steps, or what they preserve.
-/

namespace IncrementalC.Engine

open Relation (ReflTransGen)

/-- A step of the work with code that is tracked. -/
inductive Works (before : Engine) : Engine → Prop where
  | generated : Works before before.emitPending
  | marked (id : TransactionId) : Works before (before.mark id)
  /-- A run is noted with what it started from. -/
  | ran {after : Engine} (activity : Activity) (machine : before.machine.Continues after.machine)
      (states : after.states = before.states)
      (journal : after.journal = before.moment activity :: before.journal) : Works before after
  | quiet {after : Engine} (machine : before.machine.Continues after.machine)
      (states : after.states = before.states) (journal : after.journal = before.journal) :
      Works before after

variable {engine before after : Engine}

/-- A change of nothing but the host. -/
theorem works_withHost (engine : Engine) (host : HostState) (loadedFiles : List LoadedFile) :
    engine.Works { engine with host, loadedFiles } :=
  .quiet (.refl _) rfl rfl

theorem runFor_works {purpose : Purpose} {owner : AtExitOwner} {origin : Option DeclarationId}
    {address : Address} {arguments : List Value} {result : Except Fault Value}
    (run : before.runFor purpose owner origin address arguments = .ok (result, after)) :
    before.Works after := by
  obtain ⟨continued, journal⟩ := runFor_eq run
  exact .ran _ continued.machine continued.states journal

theorem missingNames_works {roots : List Address} {missing : NameSet}
    (search : engine.missingNames roots = (missing, after)) : engine.Works after := by
  obtain ⟨continued, -, journal⟩ := engine.missingNames_continues roots
  rw [search] at continued journal
  exact .quiet continued.machine continued.states journal

/-! ## Code that comes and goes -/

theorem emitUnit_descends (machine : Machine) (unit : CodeUnit) :
    machine.Descends (emitUnit machine unit).1 := by
  unfold emitUnit
  cases emitted : machine.emit unit with
  | error error => exact .refl machine
  | ok generated => exact .generated emitted

theorem emitStates_descends (machine : Machine) (states : List (TransactionId × CodeState)) :
    machine.Descends (emitStates machine states).1 := by
  induction states generalizing machine with
  | nil => exact .refl machine
  | cons entry rest inductionHypothesis =>
    unfold emitStates
    split
    · exact (emitUnit_descends machine _).trans (inductionHypothesis _)
    · exact inductionHypothesis machine

theorem dropCode_descends (engine : Engine) (id : TransactionId) :
    engine.machine.Descends (engine.dropCode id).machine := by
  unfold dropCode
  dsimp only
  split
  · exact .removed _ _
  · exact .refl _

/-! ## Executions -/

theorem runInitializers_works {id : TransactionId} {entries : List Machine.InitializerEntry}
    {fault : Option Fault} (ran : engine.runInitializers id entries = .ok (fault, after)) :
    ReflTransGen Works engine after := by
  replace ran := runInitializers_course ran
  induction ran with
  | nil engine => exact .refl
  | failed run => exact .single (runFor_works run)
  | passed run others inductionHypothesis => exact .head (runFor_works run) inductionHypothesis

theorem initializeAll_works {target : TransactionId} {blockage : Blockage}
    {waiting : List Waiting} {outcome : Option Execution}
    (ran : engine.initializeAll target blockage waiting = .ok (outcome, after)) :
    ReflTransGen Works engine after := by
  replace ran := initializeAll_course ran
  induction ran with
  | nil engine blockage => exact .refl
  | blocked search lacks others inductionHypothesis =>
    exact .head (missingNames_works search) inductionHypothesis
  | failed search free run isTarget =>
    exact .head (missingNames_works search) (.head (.marked _) (runInitializers_works run))
  | taken search free run goesOn others inductionHypothesis =>
    have initializing := runInitializers_works run
    exact .head (missingNames_works search) (.head (.marked _)
      (initializing.trans inductionHypothesis))

theorem runEntry_works {id : TransactionId} {origin : Option DeclarationId} {entry : String}
    {execution : Execution} (ran : engine.runEntry id origin entry = .ok (execution, after)) :
    ReflTransGen Works engine after := by
  cases runEntry_course ran with
  | unknown absent => exact .refl
  | lacking found search lacks => exact .single (missingNames_works search)
  | ran found search run => exact .head (missingNames_works search) (.single (runFor_works run))

theorem emitAndRun_works {log : TransactionLog} {id : TransactionId} {entry : Option String}
    {execution : Execution} (ran : engine.emitAndRun log id entry = .ok (execution, after)) :
    ReflTransGen Works engine after := by
  cases emitAndRun_course ran with
  | unknown absent => exact .refl
  | untracked state => exact .refl
  | excluded state => exact .refl
  | refused refused => exact .single .generated
  | halted accepted initialized => exact .head .generated (initializeAll_works initialized)
  | initialized accepted initialized => exact .head .generated (initializeAll_works initialized)
  | entered logged accepted initialized ran =>
    exact .head .generated ((initializeAll_works initialized).trans (runEntry_works ran))

theorem dependents_eq (engine : Engine) (id : TransactionId) :
    (engine.dependents id).2 = engine.emitPending := by
  unfold dependents
  dsimp only
  split <;> rfl

theorem locate_works (engine : Engine) (name : String) :
    ReflTransGen Works engine (engine.locate name).2 := by
  unfold locate
  dsimp only
  split
  · exact .single .generated
  · exact .head .generated (.single (works_withHost _ _ _))

/-! ## At-exit actions and libraries -/

theorem Turn.works {action : AtExitAction} (turn : engine.Turn action after) :
    ReflTransGen Works engine after := by
  cases turn with
  | native callback => exact .single (works_withHost _ _ _)
  | called callback live run => exact .single (runFor_works run)
  | skipped callback gone => exact .refl

theorem runAtExit_works {actions : List AtExitAction} (ran : engine.runAtExit actions = .ok after) :
    ReflTransGen Works engine after := by
  replace ran := runAtExit_course ran
  induction ran with
  | nil engine => exact .refl
  | cons turn others inductionHypothesis => exact turn.works.trans inductionHypothesis

theorem runOwned_works {owner : AtExitOwner} {count : Nat}
    (ran : engine.runOwned owner = .ok (count, after)) : ReflTransGen Works engine after :=
  .head (works_withHost _ _ _) (runAtExit_works (runOwned_course ran))

theorem runStaticDestructors_works {count : Nat}
    (ran : engine.runStaticDestructors = .ok (count, after)) : ReflTransGen Works engine after :=
  .head (works_withHost _ _ _) (runAtExit_works (runStaticDestructors_course ran))

theorem loadLibrary_works (engine : Engine) (files : Files.FileTree) (name : String)
    (permanent : Bool) (searchPaths : List String) :
    engine.Works (engine.loadLibrary files name permanent searchPaths).2 := by
  unfold loadLibrary
  split
  · exact works_withHost engine _ _
  · split
    · exact works_withHost engine _ _
    · split
      · exact works_withHost engine _ _
      · exact works_withHost engine _ _

theorem unloadLibrary_works {name : String} {result : Unloading}
    (ran : engine.unloadLibrary name = .ok (result, after)) : ReflTransGen Works engine after := by
  cases unloadLibrary_course ran with
  | unknown absent => exact .refl
  | permanent found permanent => exact .refl
  | closed found closable run => exact (runOwned_works run).tail (works_withHost _ _ _)

end IncrementalC.Engine
