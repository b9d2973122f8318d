import IncrementalC.Engine.Unloading
import IncrementalC.Proofs.AtExit.History
import IncrementalC.Proofs.Engine.Steps
import IncrementalC.Proofs.Machine.Hosting

/-!
Contract: what becomes of at-exit actions in an engine.

Code that runs registers exactly what it asks for, and nothing else touches the registry
but the opening of a library and the handing out of what is due. So whatever becomes of
an engine has a history, and as a history alone tells what is outstanding, it tells the
registry of the engine.

Owns: what an engine does with at-exit actions, the steps that only register, and the
batches that are handed out.

Does not own: which operations there are, or which function an action calls.
-/

namespace IncrementalC

open AtExitHistory

/-! ## Runs -/

/-- The action that a registration asks for when it is made on behalf of `owner`. -/
def Registration.action (owner : AtExitOwner) (origin : Option DeclarationId)
    (registration : Registration) : AtExitAction :=
  ⟨.generated registration.function registration.address registration.argument, owner, origin⟩

/-- A run registers what its code asks for, and nothing else changes the registry. -/
theorem Machine.run_atExit (machine : Machine) (owner : AtExitOwner)
    (origin : Option DeclarationId) (address : Address) (arguments : List Value)
    (host : HostState) :
    (machine.run (hostServices owner origin) address arguments host).2.2.atExit =
      (machine.registrations (hostServices owner origin) address arguments host).map
          (Registration.action owner origin) ++ host.atExit := by
  have keeps : (hostServices owner origin).noting.Keeps fun hosted =>
      hosted.1.atExit = hosted.2.map (Registration.action owner origin) ++ host.atExit := by
    refine ⟨?_, ?_⟩
    · rintro name values ⟨before, noted⟩ holds
      refine Eq.trans ?_ holds
      show ((hostServices owner origin).callNative name values before).2.atExit = before.atExit
      simp only [hostServices]
      rcases before.resolver.resolve name before.trace with ⟨_ | function, resolver, trace⟩ <;> rfl
    · rintro function target argument ⟨before, noted⟩ holds
      exact congrArg (Registration.action owner origin ⟨function, target, argument⟩ :: ·) holds
  rw [machine.run_noting]
  exact keeps.run machine address arguments (host, []) rfl

namespace Engine

/-- The actions that running the code at an address asks to register, newest first. -/
def registrations (engine : Engine) (owner : AtExitOwner) (origin : Option DeclarationId)
    (address : Address) (arguments : List Value) : List AtExitAction :=
  (engine.machine.registrations (hostServices owner origin) address arguments engine.host).map
    (Registration.action owner origin)

theorem owner_of_mem_registrations {engine : Engine} {owner : AtExitOwner}
    {origin : Option DeclarationId} {address : Address} {arguments : List Value}
    {action : AtExitAction} (member : action ∈ engine.registrations owner origin address arguments) :
    action.owner = owner := by
  obtain ⟨registration, -, rfl⟩ := List.mem_map.mp member
  rfl

theorem runFor_atExit {engine after : Engine} {purpose : Purpose} {owner : AtExitOwner}
    {origin : Option DeclarationId} {address : Address} {arguments : List Value}
    {result : Except Fault Value}
    (ran : engine.runFor purpose owner origin address arguments = .ok (result, after)) :
    after.host.atExit =
      engine.registrations owner origin address arguments ++ engine.host.atExit := by
  have registered := engine.machine.run_atExit owner origin address arguments engine.host
  unfold runFor at ran
  unfold registrations
  rcases finished : engine.machine.run (hostServices owner origin) address arguments engine.host
    with ⟨(_ | _) | value, machine, host⟩
  · rw [finished] at ran registered
    cases ran
    exact registered
  · rw [finished] at ran
    cases ran
  · rw [finished] at ran registered
    cases ran
    exact registered

/-! ## What can become of an engine -/

/-- The runs that the journal tells of. -/
def runsNoted (engine : Engine) : List JournalEntry :=
  engine.journal.filter fun entry =>
    match entry.activity with
    | .ran _ _ _ _ _ => true
    | _ => false

/-- The actions that a library wants to run before it is closed. -/
def destructorActions (engine : Engine) (canonical : String) (handle : LibraryHandle) :
    List AtExitAction :=
  (engine.host.resolver.loader.destructors handle).map fun destructor =>
    ⟨.native destructor, .library canonical, none⟩

/-- The engine once what is due was handed out. -/
def handOut (engine : Engine) (owner : Option AtExitOwner) : Engine :=
  { engine with host.atExit := (engine.host.atExit.handOut owner).2 }

/-- What is done with at-exit actions while one engine becomes another. -/
inductive Does : Engine → AtExitHistory → Engine → Prop where
  /-- The registry stays, and nothing is run; code may be generated or removed. -/
  | quiet {before after : Engine} (registry : after.host.atExit = before.host.atExit)
      (runs : after.runsNoted = before.runsNoted)
      (code : before.machine.Descends after.machine) : Does before [] after
  /-- Code runs that is not called by an action. -/
  | ran {before after : Engine} {purpose : Purpose} {owner : AtExitOwner}
      {origin : Option DeclarationId} {address : Address} {arguments : List Value}
      {result : Except Fault Value} (other : purpose ≠ .atExit)
      (run : before.runFor purpose owner origin address arguments = .ok (result, after)) :
      Does before ((before.registrations owner origin address arguments).map .registered) after
  | opened (engine : Engine) (canonical : String) (handle : LibraryHandle) :
      Does engine ((engine.destructorActions canonical handle).reverse.map .registered)
        (engine.registerDestructors canonical handle)
  | handedOut (engine : Engine) (owner : Option AtExitOwner) :
      Does engine [.handedOut owner (engine.host.atExit.handOut owner).1] (engine.handOut owner)
  | calledNative (engine : Engine) {action : AtExitAction} {destructor : Destructor}
      (callback : action.callback = .native destructor) :
      Does engine [.called action]
        { engine with host.trace := destructor.run engine.host.trace }
  | calledCode {before after : Engine} {action : AtExitAction} {name : String} {address : Address}
      {argument : Value} {result : Except Fault Value}
      (callback : action.callback = .generated name address argument)
      (run : before.runFor .atExit action.owner action.origin address [argument] =
        .ok (result, after)) :
      Does before
        ((before.registrations action.owner action.origin address [argument]).map .registered ++
          [.called action]) after
  /-- The code that the action calls is gone. -/
  | skipped {engine : Engine} {action : AtExitAction} {name : String} {address : Address}
      {argument : Value} (callback : action.callback = .generated name address argument)
      (gone : engine.machine.isLive address.module = false) :
      Does engine [.called action] engine
  | andThen {before between after : Engine} {earlier later : AtExitHistory}
      (first : Does before earlier between) (second : Does between later after) :
      Does before (later ++ earlier) after

theorem registerDestructors_atExit (engine : Engine) (canonical : String)
    (handle : LibraryHandle) :
    (engine.registerDestructors canonical handle).host.atExit =
      (engine.destructorActions canonical handle).reverse ++ engine.host.atExit := by
  show (engine.destructorActions canonical handle).foldl AtExitRegistry.register
    engine.host.atExit = _
  exact List.foldl_flip_cons_eq_append'

/-- A history that tells the registry goes on telling it. -/
theorem Does.accounts {before after : Engine} {deeds earlier : AtExitHistory}
    (does : before.Does deeds after)
    (told : before.host.atExit = (outstanding earlier).map Prod.fst)
    (settled : HandsOutWhatIsDue earlier) :
    after.host.atExit = (outstanding (deeds ++ earlier)).map Prod.fst ∧
      HandsOutWhatIsDue (deeds ++ earlier) := by
  induction does generalizing earlier with
  | quiet registry runs code => exact ⟨registry.trans told, settled⟩
  | ran other run =>
    rw [runFor_atExit run, told, outstanding_registered]
    exact ⟨rfl, settled.registered _ _⟩
  | opened engine canonical handle =>
    rw [registerDestructors_atExit, told, outstanding_registered]
    exact ⟨rfl, settled.registered _ _⟩
  | handedOut engine owner =>
    rw [handOut, AtExitRegistry.handOut_eq, told, List.filter_map, List.filter_map]
    refine ⟨rfl, settled.cons ?_⟩
    intro other actions same
    obtain ⟨rfl, rfl⟩ := AtExitDeed.handedOut.inj same
    rfl
  | calledNative engine callback => exact ⟨told, settled.called _⟩
  | calledCode callback run =>
    rw [List.append_assoc, runFor_atExit run, told, outstanding_registered]
    exact ⟨rfl, (settled.called _).registered _ _⟩
  | skipped callback gone => exact ⟨told, settled.called _⟩
  | andThen first second firstHolds secondHolds =>
    obtain ⟨toldBetween, settledBetween⟩ := firstHolds told settled
    rw [List.append_assoc]
    exact secondHolds toldBetween settledBetween

theorem Does.atExit_eq {before after : Engine} {deeds : AtExitHistory}
    (does : before.Does deeds after) (nothing : HandsNothingOut deeds) :
    after.host.atExit = made deeds ++ before.host.atExit := by
  -- The registry itself, taken for a history, is one that tells the registry.
  have registry := outstanding_registered before.host.atExit []
  have settled := handsOutWhatIsDue_nil.registered before.host.atExit
  rw [outstanding, List.map_nil, List.append_nil, List.append_nil] at registry
  rw [List.append_nil] at settled
  rw [(does.accounts registry.symm settled).1, nothing.outstanding_append, registry]

/-! ## Code that comes and goes -/

/-- Code comes by being generated, goes by being removed, and stays what it is. -/
theorem Does.descends {before after : Engine} {deeds : AtExitHistory}
    (does : before.Does deeds after) : before.machine.Descends after.machine := by
  induction does with
  | quiet registry runs code => exact code
  | ran other run => exact .ran (runFor_eq run).1.machine
  | opened engine canonical handle => exact .refl _
  | handedOut engine owner => exact .refl _
  | calledNative engine callback => exact .refl _
  | calledCode callback run => exact .ran (runFor_eq run).1.machine
  | skipped callback gone => exact .refl _
  | andThen first second firstDescends secondDescends => exact firstDescends.trans secondDescends

/-! ## Registering only -/

/-- Nothing is done with at-exit actions but registering some. -/
def Registers (before after : Engine) : Prop :=
  ∃ deeds, before.Does deeds after ∧ OnlyRegisters deeds

section

variable {engine before between after : Engine}

theorem Registers.quiet (registry : after.host.atExit = before.host.atExit)
    (runs : after.runsNoted = before.runsNoted) (code : before.machine.Descends after.machine) :
    before.Registers after :=
  ⟨[], .quiet registry runs code, fun _ member => absurd member List.not_mem_nil⟩

theorem Registers.refl (engine : Engine) : engine.Registers engine := .quiet rfl rfl (.refl _)

theorem Registers.trans (first : before.Registers between) (second : between.Registers after) :
    before.Registers after := by
  obtain ⟨earlier, firstDoes, firstOnly⟩ := first
  obtain ⟨later, secondDoes, secondOnly⟩ := second
  exact ⟨later ++ earlier, firstDoes.andThen secondDoes, secondOnly.append firstOnly⟩

theorem Registers.ran {purpose : Purpose} {owner : AtExitOwner} {origin : Option DeclarationId}
    {address : Address} {arguments : List Value} {result : Except Fault Value}
    (run : before.runFor purpose owner origin address arguments = .ok (result, after))
    (other : purpose ≠ .atExit) : before.Registers after :=
  ⟨_, .ran other run, onlyRegisters_registered _⟩

theorem emitPending_registers (engine : Engine) : engine.Registers engine.emitPending :=
  .quiet rfl rfl (emitStates_descends engine.machine engine.states)

theorem resolvesNatively_registers (engine : Engine) (name : String) :
    engine.Registers (engine.resolvesNatively name).2 :=
  .quiet rfl rfl (.refl _)

theorem locate_registers (engine : Engine) (name : String) :
    engine.Registers (engine.locate name).2 := by
  have emitting := engine.emitPending_registers
  unfold locate
  dsimp only
  split
  · exact emitting
  · exact emitting.trans (engine.emitPending.resolvesNatively_registers name)

theorem dependents_quiet (engine : Engine) (id : TransactionId) :
    (engine.dependents id).2.host.atExit = engine.host.atExit ∧
      (engine.dependents id).2.runsNoted = engine.runsNoted ∧
      engine.machine.Descends (engine.dependents id).2.machine := by
  unfold dependents
  dsimp only
  split <;> exact ⟨rfl, rfl, emitStates_descends engine.machine engine.states⟩

theorem dependents_registers (engine : Engine) (id : TransactionId) :
    engine.Registers (engine.dependents id).2 := by
  obtain ⟨registry, runs, code⟩ := engine.dependents_quiet id
  exact .quiet registry runs code

theorem missingNames_registers {roots : List Address} {missing : NameSet}
    (search : engine.missingNames roots = (missing, after)) : engine.Registers after := by
  obtain ⟨-, machine, journal⟩ := engine.missingNames_continues roots
  rw [search] at machine journal
  obtain rfl : (engine.missingNames roots).2 = after := congrArg Prod.snd search
  refine .quiet (missingNames_keeps engine roots
    (fun other => other.host.atExit = engine.host.atExit) (fun _ _ => id) rfl) ?_ ?_
  · unfold runsNoted
    rw [journal]
  · rw [machine]
    exact .refl _

theorem mark_registers (engine : Engine) (id : TransactionId) :
    engine.Registers (engine.mark id) :=
  .quiet rfl rfl (.refl _)

theorem runInitializers_registers {id : TransactionId} {entries : List Machine.InitializerEntry}
    {fault : Option Fault} (ran : engine.runInitializers id entries = .ok (fault, after)) :
    engine.Registers after := by
  replace ran := runInitializers_course ran
  induction ran with
  | nil engine => exact .refl engine
  | failed run => exact .ran run nofun
  | passed run others registers => exact (Registers.ran run nofun).trans registers

theorem initializeAll_registers {target : TransactionId} {blockage : Blockage}
    {waiting : List Waiting} {outcome : Option Execution}
    (ran : engine.initializeAll target blockage waiting = .ok (outcome, after)) :
    engine.Registers after := by
  replace ran := initializeAll_course ran
  induction ran with
  | nil engine blockage => exact .refl engine
  | blocked search lacks others registers => exact (missingNames_registers search).trans registers
  | failed search free run isTarget =>
    exact (missingNames_registers search).trans
      ((mark_registers _ _).trans (runInitializers_registers run))
  | taken search free run goesOn others registers =>
    have initializing := (mark_registers _ _).trans (runInitializers_registers run)
    exact (missingNames_registers search).trans (initializing.trans registers)

theorem runEntry_registers {id : TransactionId} {origin : Option DeclarationId} {entry : String}
    {execution : Execution} (ran : engine.runEntry id origin entry = .ok (execution, after)) :
    engine.Registers after := by
  cases runEntry_course ran with
  | unknown absent => exact .refl engine
  | lacking found search lacks => exact missingNames_registers search
  | ran found search run => exact (missingNames_registers search).trans (.ran run nofun)

theorem emitAndRun_registers {log : TransactionLog} {id : TransactionId} {entry : Option String}
    {execution : Execution} (ran : engine.emitAndRun log id entry = .ok (execution, after)) :
    engine.Registers after := by
  have emitting := engine.emitPending_registers
  cases emitAndRun_course ran with
  | unknown absent => exact .refl engine
  | untracked state => exact .refl engine
  | excluded state => exact .refl engine
  | refused refused => exact emitting
  | halted accepted initialized => exact emitting.trans (initializeAll_registers initialized)
  | initialized accepted initialized => exact emitting.trans (initializeAll_registers initialized)
  | entered logged accepted initialized ran =>
    exact emitting.trans ((initializeAll_registers initialized).trans (runEntry_registers ran))

theorem runCode_registers {owner : AtExitOwner} {origin : Option DeclarationId}
    {address : Address} {arguments : List Value} {result : Except Fault Value}
    (ran : engine.runCode owner origin address arguments = .ok (result, after)) :
    engine.Registers after :=
  .ran ran nofun

theorem loadLibrary_registers (engine : Engine) (files : Files.FileTree) (name : String)
    (permanent : Bool) (searchPaths : List String) :
    engine.Registers (engine.loadLibrary files name permanent searchPaths).2 := by
  unfold loadLibrary
  split
  · exact .refl engine
  · next canonical _ =>
    split
    · exact .refl engine
    · split
      · exact .refl engine
      · next handle resolver _ =>
        have opening : engine.Registers { engine with host.resolver := resolver } :=
          .quiet rfl rfl (.refl _)
        refine opening.trans (.trans ⟨_, .opened _ canonical handle, onlyRegisters_registered _⟩ ?_)
        exact .quiet rfl rfl (.refl _)

end

/-! ## Handing out -/

section

variable {engine before after : Engine}

/-- A turn registers actions of the same owner, and hands nothing out. -/
theorem Turn.does {action : AtExitAction} (turn : engine.Turn action after) :
    ∃ made : List AtExitAction, engine.Does (made.map .registered ++ [.called action]) after ∧
      ∀ other ∈ made, other.owner = action.owner := by
  have none : ∀ other ∈ ([] : List AtExitAction), other.owner = action.owner :=
    fun _ member => absurd member List.not_mem_nil
  cases turn with
  | native callback => exact ⟨[], .calledNative engine callback, none⟩
  | called callback live run =>
    exact ⟨_, .calledCode callback run, fun _ => owner_of_mem_registrations⟩
  | skipped callback gone => exact ⟨[], .skipped callback gone, none⟩

/-- Each action of a batch has its turn, in order, and what the batch registers is owned
as the actions of the batch are. -/
theorem runAtExit_does {actions : List AtExitAction} (ran : engine.runAtExit actions = .ok after) :
    ∃ deeds, engine.Does deeds after ∧ HandsNothingOut deeds ∧ calls deeds = actions.reverse ∧
      ∀ action, .registered action ∈ deeds → ∃ handed ∈ actions, action.owner = handed.owner := by
  replace ran := runAtExit_course ran
  induction ran with
  | nil engine =>
    exact ⟨[], .quiet rfl rfl (.refl _), fun _ _ => List.not_mem_nil, rfl,
      fun _ member => absurd member List.not_mem_nil⟩
  | @cons _ between _ action rest turn others inductionHypothesis =>
    obtain ⟨made, first, owned⟩ := turn.does
    obtain ⟨deeds, does, nothing, called, owners⟩ := inductionHypothesis
    refine ⟨_, first.andThen does, ?_, ?_, ?_⟩
    · refine nothing.append ((onlyRegisters_registered made).handsNothingOut.append ?_)
      intro owner handed member
      cases List.mem_singleton.mp member
    · rw [calls_append, calls_append, (onlyRegisters_registered made).calls_eq, called,
        List.reverse_cons]
      rfl
    · intro other member
      rcases List.mem_append.mp member with later | now
      · obtain ⟨handed, inRest, same⟩ := owners other later
        exact ⟨handed, List.mem_cons_of_mem action inRest, same⟩
      · rcases List.mem_append.mp now with here | marked
        · obtain ⟨_, inMade, same⟩ := List.mem_map.mp here
          obtain rfl := AtExitDeed.registered.inj same
          exact ⟨action, List.mem_cons_self, owned _ inMade⟩
        · cases List.mem_singleton.mp marked

/-- What was due for an owner, or for all, had its turn, and `meanwhile` is what was done
in the course of it. -/
structure Retires (owner : Option AtExitOwner) (before : Engine) (meanwhile : AtExitHistory)
    (after : Engine) : Prop where
  does : before.Does (meanwhile ++ [.handedOut owner (before.host.atExit.handOut owner).1]) after
  nothing : HandsNothingOut meanwhile
  called : calls meanwhile = (before.host.atExit.handOut owner).1.reverse
  pending : after.host.atExit = made meanwhile ++ (before.host.atExit.handOut owner).2
  owned : ∀ action ∈ made meanwhile, action.isDue owner = true

theorem Retires.serves {owner : Option AtExitOwner} {meanwhile : AtExitHistory}
    (retires : Retires owner engine meanwhile after) :
    Serves (some owner)
      (meanwhile ++ [.handedOut owner (engine.host.atExit.handOut owner).1]) :=
  ⟨_, meanwhile, rfl, retires.nothing, retires.called⟩

theorem exists_retires {owner : Option AtExitOwner}
    (ran : (engine.handOut owner).runAtExit (engine.host.atExit.handOut owner).1 = .ok after) :
    ∃ meanwhile, Retires owner engine meanwhile after := by
  obtain ⟨meanwhile, does, nothing, called, owners⟩ := runAtExit_does ran
  refine ⟨meanwhile, (Does.handedOut engine owner).andThen does, nothing, called,
    does.atExit_eq nothing, ?_⟩
  intro action member
  obtain ⟨handed, due, same⟩ := owners action (mem_made.mp member)
  rw [AtExitRegistry.handOut_eq] at due
  have isDue := (List.mem_filter.mp due).2
  unfold AtExitAction.isDue at isDue ⊢
  rw [same]
  exact isDue

/-- What is quiet may follow. -/
theorem Retires.quietly {owner : Option AtExitOwner} {meanwhile : AtExitHistory}
    {between : Engine} (retires : Retires owner before meanwhile between)
    (registry : after.host.atExit = between.host.atExit)
    (runs : after.runsNoted = between.runsNoted)
    (code : between.machine.Descends after.machine) : Retires owner before meanwhile after :=
  { retires with
    does := retires.does.andThen (.quiet registry runs code)
    pending := registry.trans retires.pending }

/-- What is quiet may come first. -/
theorem Retires.preceded {owner : Option AtExitOwner} {meanwhile : AtExitHistory}
    {between : Engine} (retires : Retires owner between meanwhile after)
    (registry : between.host.atExit = before.host.atExit)
    (runs : between.runsNoted = before.runsNoted)
    (code : before.machine.Descends between.machine) : Retires owner before meanwhile after := by
  obtain ⟨does, nothing, called, pending, owned⟩ := retires
  rw [registry] at does called pending
  refine ⟨?_, nothing, called, pending, owned⟩
  rw [← List.append_nil (meanwhile ++ _)]
  exact (Does.quiet registry runs code).andThen does

/-- What is left of the owner is what was registered in the course of it. -/
theorem Retires.takeOwned {owner : AtExitOwner} {meanwhile : AtExitHistory}
    (retires : Retires (some owner) before meanwhile after) :
    after.host.atExit.takeOwned owner =
      (made meanwhile, (before.host.atExit.takeOwned owner).2) := by
  have own : ∀ action ∈ made meanwhile, action.owner = owner :=
    fun action member => of_decide_eq_true (retires.owned action member)
  have others : ∀ action ∈ (before.host.atExit.takeOwned owner).2, action.owner ≠ owner :=
    fun action member => of_decide_eq_true (List.mem_filter.mp member).2
  rw [retires.pending]
  show AtExitRegistry.takeOwned (made meanwhile ++ (before.host.atExit.takeOwned owner).2) owner = _
  generalize (before.host.atExit.takeOwned owner).2 = kept at others
  refine Prod.ext ?_ ?_
  · show List.filter _ (made meanwhile ++ kept) = made meanwhile
    rw [List.filter_append, List.filter_eq_self.mpr fun action member =>
        decide_eq_true (own action member),
      List.filter_eq_nil_iff.mpr fun action member same =>
        others action member (of_decide_eq_true same), List.append_nil]
  · show List.filter _ (made meanwhile ++ kept) = kept
    rw [List.filter_append, List.filter_eq_nil_iff.mpr fun action member differs =>
        (of_decide_eq_true differs : action.owner ≠ owner) (own action member),
      List.filter_eq_self.mpr fun action member => decide_eq_true (others action member),
      List.nil_append]

theorem runOwned_retires {owner : AtExitOwner} {count : Nat}
    (ran : engine.runOwned owner = .ok (count, after)) :
    ∃ meanwhile, Retires (some owner) engine meanwhile after :=
  exists_retires (runOwned_course ran)

theorem runStaticDestructors_retires {count : Nat}
    (ran : engine.runStaticDestructors = .ok (count, after)) :
    ∃ meanwhile, Retires none engine meanwhile after :=
  exists_retires (runStaticDestructors_course ran)

theorem unload_retires {id : TransactionId} {count : Nat}
    (ran : engine.unload id = .ok (count, after)) :
    ∃ meanwhile, Retires (some (.transaction id)) engine meanwhile after := by
  obtain ⟨between, run, rfl⟩ := unload_course ran
  obtain ⟨meanwhile, retires⟩ := runOwned_retires run
  exact ⟨meanwhile, retires.quietly rfl rfl (dropCode_descends _ id)⟩

end

end Engine

end IncrementalC
