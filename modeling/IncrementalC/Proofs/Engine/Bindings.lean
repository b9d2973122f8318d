import IncrementalC.Proofs.Engine.Steps

/-!
Contract: what a name that live code refers to resolves to stays.

New modules define new names, so that generating code changes what no name resolves to.
Only the removal of a module can, and it does not if no other module refers to a name
that the module defines.

Owns: machines that retain what their modules refer to, engines that have done so at all
times, and that working with code keeps to it.

Does not own: which modules a session removes.
-/

namespace IncrementalC

namespace Machine

variable {machine before between after : Machine} {name : String} {address : Address}

/-- Modules that are added behind the others change what no name resolves to. -/
theorem resolve?_of_isPrefix (kept : before.modules <+: after.modules)
    (found : before.resolve? name = some address) : after.resolve? name = some address := by
  obtain ⟨newer, same⟩ := kept
  unfold resolve? at found ⊢
  rw [← same, List.findSome?_append, found, Option.some_or]

/-- A name goes on resolving to what a module defines under it as long as the module is live. -/
theorem WellFormed.resolve?_of_live (wellFormed : after.WellFormed) (module : Module)
    (live : module ∈ after.modules) (here : module.address? name = some address) :
    after.resolve? name = some address := by
  have defined := (module.isSome_address?_iff name).mp (by rw [here]; rfl)
  rw [wellFormed.resolve?_eq live defined, here]

/-- `after` has come from `before`, and what a module refers to that has stayed live
resolves as it did. -/
structure Retains (before after : Machine) : Prop where
  wellFormed : before.WellFormed
  descends : before.Descends after
  bound : ∀ module ∈ before.modules, module ∈ after.modules → ∀ name ∈ module.unit.references,
    ∀ address, before.resolve? name = some address → after.resolve? name = some address

theorem Retains.added (wellFormed : before.WellFormed) (descends : before.Descends after)
    (kept : before.modules <+: after.modules) : before.Retains after :=
  ⟨wellFormed, descends, fun _ _ _ _ _ _ found => resolve?_of_isPrefix kept found⟩

theorem Retains.continued (wellFormed : before.WellFormed) (continues : before.Continues after) :
    before.Retains after :=
  .added wellFormed (.ran continues) ⟨[], by rw [continues.modules, List.append_nil]⟩

theorem WellFormed.retains (wellFormed : machine.WellFormed) : machine.Retains machine :=
  .continued wellFormed (.refl machine)

/-- A module that is live before and after was live in between. -/
theorem Retains.trans (first : before.Retains between) (second : between.Retains after) :
    before.Retains after where
  wellFormed := first.wellFormed
  descends := first.descends.trans second.descends
  bound module old live name used address found := by
    have given := first.wellFormed.numbered module old
    have between : module ∈ between.modules := by
      rcases second.descends.mem_modules live with stays | new
      · exact stays
      · have next := first.descends.nextModule
        omega
    exact second.bound module between live name used address
      (first.bound module old between name used address found)

/-- No module refers to a name that another module of that number defines. -/
def Spares (machine : Machine) (id : ModuleId) : Prop :=
  ∀ live ∈ machine.modules, live.id ≠ id → ∀ name ∈ live.unit.references,
    name ∉ machine.symbolsOf id

theorem WellFormed.symbolsOf_eq (wellFormed : machine.WellFormed) {module : Module}
    (live : module ∈ machine.modules) : machine.symbolsOf module.id = module.unit.definedNames := by
  rw [symbolsOf, wellFormed.module?_of_mem live]

/-- Removing a module that no other refers to leaves every other with what it refers to. -/
theorem Spares.retains {id : ModuleId} (spares : machine.Spares id)
    (wellFormed : machine.WellFormed) : machine.Retains (machine.unload id) where
  wellFormed := wellFormed
  descends := .removed machine id
  bound module old live name used address found := by
    obtain ⟨owner, ownerLive, here⟩ := exists_of_resolve? found
    have defined := (owner.isSome_address?_iff name).mp (by rw [here]; rfl)
    rw [unload_modules] at live
    have other : module.id ≠ id := by simpa using (List.mem_filter.mp live).2
    have stays : owner.id ≠ id := by
      rintro rfl
      apply spares module old other name used
      rw [wellFormed.symbolsOf_eq ownerLive]
      exact defined
    refine (wellFormed.unload id).resolve?_of_live owner ?_ here
    rw [unload_modules]
    exact List.mem_filter.mpr ⟨ownerLive, decide_eq_true stays⟩

end Machine

namespace Engine

variable {engine before after : Engine}

/-! ## Generating -/

theorem emitUnit_adds (machine : Machine) (unit : CodeUnit) :
    machine.modules <+: (emitUnit machine unit).1.modules ∧
      machine.globals <+: (emitUnit machine unit).1.globals := by
  unfold emitUnit
  cases emitted : machine.emit unit with
  | error error => exact ⟨List.prefix_rfl, List.prefix_rfl⟩
  | ok generated =>
    obtain ⟨id, grown⟩ := generated
    obtain ⟨-, -, rfl⟩ := Machine.emit_eq emitted
    exact ⟨List.prefix_append _ _, List.prefix_append _ _⟩

/-- Generating adds modules and variables behind those that are there. -/
theorem emitStates_adds (machine : Machine) (states : CodeStates) :
    machine.modules <+: (emitStates machine states).1.modules ∧
      machine.globals <+: (emitStates machine states).1.globals := by
  induction states generalizing machine with
  | nil => exact ⟨List.prefix_rfl, List.prefix_rfl⟩
  | cons entry rest inductionHypothesis =>
    unfold emitStates
    split
    · next unit waits =>
      obtain ⟨modules, globals⟩ := emitUnit_adds machine unit
      obtain ⟨moreModules, moreGlobals⟩ := inductionHypothesis (emitUnit machine unit).1
      exact ⟨modules.trans moreModules, globals.trans moreGlobals⟩
    · exact inductionHypothesis machine

theorem emitPending_adds (engine : Engine) :
    engine.machine.modules <+: engine.emitPending.machine.modules ∧
      engine.machine.globals <+: engine.emitPending.machine.globals :=
  emitStates_adds engine.machine engine.states

/-! ## At all times -/

/-- At any two times, what a module refers to that was live at both resolved to the same. -/
structure Retentive (engine : Engine) : Prop where
  wellFormed : engine.machine.WellFormed
  latest : ∀ entry ∈ engine.journal, entry.machine.Retains engine.machine
  earlier : engine.journal.Pairwise fun newer older => older.machine.Retains newer.machine

theorem retentive_new (limits : Limits) (source : LibrarySource) :
    (new limits source).Retentive where
  wellFormed := Machine.wellFormed_new limits
  latest _ member := absurd member List.not_mem_nil
  earlier := .nil

namespace Retentive

theorem unnoted (holds : before.Retentive) (retains : before.machine.Retains after.machine)
    (journal : after.journal = before.journal) : after.Retentive where
  wellFormed := retains.descends.wellFormed holds.wellFormed
  latest entry member := by
    rw [journal] at member
    exact (holds.latest entry member).trans retains
  earlier := by
    rw [journal]
    exact holds.earlier

theorem noted (holds : before.Retentive) {entry : JournalEntry}
    (journal : after.journal = entry :: before.journal)
    (retains : before.machine.Retains entry.machine)
    (further : entry.machine.Retains after.machine) : after.Retentive where
  wellFormed := further.descends.wellFormed further.wellFormed
  latest other member := by
    rw [journal] at member
    rcases List.mem_cons.mp member with rfl | older
    · exact further
    · exact (holds.latest other older).trans (retains.trans further)
  earlier := by
    rw [journal]
    exact .cons (fun older member => (holds.latest older member).trans retains) holds.earlier

/-- Noting a change is noting what it has led to. -/
theorem changed (holds : before.Retentive) (activity : Activity)
    (journal : after.journal = after.moment activity :: before.journal)
    (retains : before.machine.Retains after.machine) : after.Retentive :=
  holds.noted journal retains (retains.descends.wellFormed holds.wellFormed).retains

/-- A step of the work with code keeps to it. -/
theorem works (holds : before.Retentive) (works : before.Works after) : after.Retentive := by
  cases works with
  | generated =>
    exact holds.changed .generated rfl (.added holds.wellFormed
      (emitStates_descends before.machine before.states) before.emitPending_adds.1)
  | marked id => exact holds.changed (.initialized id) rfl holds.wellFormed.retains
  | ran activity machine states journal =>
    exact holds.noted journal holds.wellFormed.retains (.continued holds.wellFormed machine)
  | quiet machine states journal =>
    exact holds.unnoted (.continued holds.wellFormed machine) journal

theorem worked (holds : before.Retentive)
    (works : Relation.ReflTransGen Works before after) : after.Retentive := by
  induction works with
  | refl => exact holds
  | tail earlier last inductionHypothesis => exact inductionHypothesis.works last

theorem track (holds : engine.Retentive) (transaction : Transaction) (unit : CodeUnit) :
    (engine.track transaction unit).Retentive :=
  holds.changed (.tracked transaction.id) rfl holds.wellFormed.retains

theorem dropCode (holds : engine.Retentive) {id : TransactionId}
    (spares : ∀ module initialized symbols references,
      engine.state? id = some (.emitted module initialized symbols references) →
      engine.machine.Spares module) : (engine.dropCode id).Retentive := by
  refine holds.changed (.dropped id) rfl ?_
  unfold Engine.dropCode
  dsimp only
  split
  · next module initialized symbols references emitted =>
    exact (spares _ _ _ _ emitted).retains holds.wellFormed
  · exact holds.wellFormed.retains

end Retentive

/-! ## Dependents -/

/-- Code that nobody depends on defines no name that another module refers to. -/
theorem dependents_eq_nil (wellFormed : engine.emitPending.WellFormed) {id : TransactionId}
    (none : (engine.dependents id).1 = []) {module : ModuleId} {initialized : Bool}
    {symbols references : List String}
    (emitted : engine.emitPending.state? id =
      some (.emitted module initialized symbols references)) :
    engine.emitPending.machine.Spares module := by
  unfold dependents at none
  simp only [emitted, List.filterMap_eq_nil_iff] at none
  obtain ⟨unit, found, rfl, -⟩ := wellFormed.states.holds _ (CodeStates.mem_of_find emitted)
  intro live member other name used
  obtain ⟨user, _, state⟩ := wellFormed.exists_state member
  have differs : user ≠ id := by
    rintro rfl
    obtain ⟨rfl, -⟩ := CodeState.emitted.inj (Option.some.inj (emitted.symm.trans state))
    exact other rfl
  have free := none _ (CodeStates.mem_of_find state)
  dsimp only at free
  rw [Machine.symbolsOf, found]
  intro defined
  have uses : (live.unit.references.any fun name => decide (name ∈ unit.definedNames)) = true :=
    List.any_eq_true.mpr ⟨name, used, decide_eq_true defined⟩
  rw [if_pos ⟨differs, uses⟩] at free
  cases free

/-! ## Running what is due -/

theorem Turn.keeps {action : AtExitAction} (turn : engine.Turn action after) :
    engine.machine.Continues after.machine ∧ after.states = engine.states := by
  cases turn with
  | native callback => exact ⟨.refl _, rfl⟩
  | called callback live run => exact ⟨(runFor_eq run).1.machine, (runFor_eq run).1.states⟩
  | skipped callback gone => exact ⟨.refl _, rfl⟩

/-- No code is generated, marked or removed while actions run. -/
theorem Turns.keeps {actions : List AtExitAction} (turns : engine.Turns actions after) :
    engine.machine.Continues after.machine ∧ after.states = engine.states := by
  induction turns with
  | nil engine => exact ⟨.refl _, rfl⟩
  | cons turn others inductionHypothesis =>
    obtain ⟨machine, states⟩ := turn.keeps
    exact ⟨machine.trans inductionHypothesis.1, inductionHypothesis.2.trans states⟩

theorem runOwned_keeps {owner : AtExitOwner} {count : Nat}
    (ran : engine.runOwned owner = .ok (count, after)) :
    engine.machine.Continues after.machine ∧ after.states = engine.states :=
  (runAtExit_course (runOwned_course ran)).keeps

end Engine

end IncrementalC
