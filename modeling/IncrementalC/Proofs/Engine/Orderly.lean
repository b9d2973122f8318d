import IncrementalC.Proofs.Engine.Bindings
import IncrementalC.Proofs.Engine.Conservation
import IncrementalC.Proofs.Engine.Containment

/-!
Contract: what holds of every engine, whatever code it is given.

States stand by ascending number, and a state whose code is generated tells truly which names
its module defines and refers to. Neither depends on where units come from, or on whether a
transaction is tracked again.

Owns: the engines that operations lead to, and that all of them are orderly.

Does not own: what is true only of code that was lowered from programs.
-/

namespace IncrementalC

/-! ## What states tell -/

/-- If code is generated, its module is live and has the names that the state says. -/
def CodeState.Tells (machine : Machine) : CodeState → Prop
  | .emitted module _ symbols references => ∃ unit,
      machine.module? module = some ⟨module, unit⟩ ∧ symbols = unit.definedNames ∧
        references = unit.references
  | .pending _ | .excluded | .failed _ => True

theorem CodeState.Tells.mono {machine larger : Machine} {state : CodeState}
    (tells : state.Tells machine)
    (kept : ∀ id module, machine.module? id = some module → larger.module? id = some module) :
    state.Tells larger := by
  cases state with
  | emitted module initialized symbols references =>
    obtain ⟨unit, found, told⟩ := tells
    exact ⟨unit, kept module _ found, told⟩
  | pending unit => trivial
  | excluded => trivial
  | failed error => trivial

theorem CodeState.Tells.unload {machine : Machine} {state : CodeState} (tells : state.Tells machine)
    (wellFormed : machine.WellFormed) {module : ModuleId} (differs : state.module? ≠ some module) :
    state.Tells (machine.unload module) := by
  cases state with
  | emitted own initialized symbols references =>
    have holds : (CodeState.emitted own initialized symbols references).Holds machine := tells
    exact holds.unload wellFormed differs
  | pending unit => trivial
  | excluded => trivial
  | failed error => trivial

theorem CodeState.tells_marked {machine : Machine} {entry : TransactionId × CodeState}
    (tells : entry.2.Tells machine) (id : TransactionId) :
    (CodeStates.marked id entry).2.Tells machine := by
  obtain ⟨other, state⟩ := entry
  cases state with
  | emitted module initialized symbols references =>
    unfold CodeStates.marked
    dsimp only
    split <;> exact tells
  | pending unit => trivial
  | excluded => trivial
  | failed error => trivial

namespace Engine

/-- States stand by ascending number, each tells truly of a module of its own. -/
structure Orderly (engine : Engine) : Prop where
  machine : engine.machine.WellFormed
  ascending : engine.states.Pairwise fun left right => left.1.number < right.1.number
  tells : ∀ entry ∈ engine.states, entry.2.Tells engine.machine
  apart : (CodeStates.modules engine.states).Nodup

variable {engine before after : Engine}

theorem orderly_new (limits : Limits) (source : LibrarySource) : (new limits source).Orderly where
  machine := Machine.wellFormed_new limits
  ascending := .nil
  tells _ member := absurd member List.not_mem_nil
  apart := List.nodup_nil

/-! ## Generating -/

theorem module?_of_isPrefix {before after : Machine} (kept : before.modules <+: after.modules)
    {id : ModuleId} {module : Module} (found : before.module? id = some module) :
    after.module? id = some module := by
  obtain ⟨added, modules⟩ := kept
  unfold Machine.module? at found ⊢
  rw [← modules, List.find?_append, found]
  rfl

/-- A unit that is generated gets the next number. -/
theorem emitUnit_tells {machine : Machine} (wellFormed : machine.WellFormed) (unit : CodeUnit) :
    (emitUnit machine unit).1.WellFormed ∧
      (emitUnit machine unit).2.Tells (emitUnit machine unit).1 ∧
      ∀ module ∈ (emitUnit machine unit).2.module?, machine.nextModule = module.number ∧
        (emitUnit machine unit).1.nextModule = module.number + 1 := by
  unfold emitUnit
  cases emitted : machine.emit unit with
  | error error => exact ⟨wellFormed, trivial, nofun⟩
  | ok generated =>
    obtain ⟨id, grown⟩ := generated
    have grownWellFormed := wellFormed.emit emitted
    obtain ⟨-, rfl, modules⟩ := Machine.emit_eq emitted
    have live : (⟨⟨machine.nextModule⟩, unit⟩ : Module) ∈ grown.modules := by
      rw [modules]
      exact List.mem_append_right _ (List.mem_singleton_self _)
    have found := grownWellFormed.module?_of_mem live
    refine ⟨grownWellFormed, ⟨unit, found, ?_, ?_⟩, ?_⟩
    · rw [Machine.symbolsOf, found]
    · rw [Machine.referencesOf, found]
    · rintro _ ⟨⟩
      exact ⟨rfl, by rw [modules]⟩

/-- States tell truly after generating. -/
theorem emitStates_tells {machine : Machine} (wellFormed : machine.WellFormed) {states : CodeStates}
    (tells : ∀ entry ∈ states, entry.2.Tells machine) :
    ∀ entry ∈ (emitStates machine states).2, entry.2.Tells (emitStates machine states).1 := by
  induction states generalizing machine with
  | nil => exact fun _ member => absurd member List.not_mem_nil
  | cons head rest inductionHypothesis =>
    obtain ⟨id, state⟩ := head
    have headTells := tells _ List.mem_cons_self
    have restTells := fun entry member => tells entry (List.mem_cons_of_mem (id, state) member)
    cases state with
    | pending unit =>
      obtain ⟨grownWellFormed, unitTells, -⟩ := emitUnit_tells wellFormed unit
      have keptByUnit := (emitUnit_adds machine unit).1
      have keptByRest := (emitStates_adds (emitUnit machine unit).1 rest).1
      intro entry member
      rcases List.mem_cons.mp member with rfl | later
      · exact unitTells.mono fun _ _ => module?_of_isPrefix keptByRest
      · refine inductionHypothesis grownWellFormed (fun other old => ?_) entry later
        exact (restTells other old).mono fun _ _ => module?_of_isPrefix keptByUnit
    | excluded | failed error | emitted module initialized symbols references =>
      have kept := (emitStates_adds machine rest).1
      intro entry member
      rcases List.mem_cons.mp member with rfl | later
      · exact headTells.mono fun _ _ => module?_of_isPrefix kept
      · exact inductionHypothesis wellFormed restTells entry later

/-- States have modules of their own after generating. -/
theorem emitStates_apart {machine : Machine} (wellFormed : machine.WellFormed) {states : CodeStates}
    (below : ∀ module ∈ CodeStates.modules states, module.number < machine.nextModule)
    (apart : (CodeStates.modules states).Nodup) :
    (CodeStates.modules (emitStates machine states).2).Nodup ∧
      ∀ module ∈ CodeStates.modules (emitStates machine states).2,
        module ∈ CodeStates.modules states ∨ machine.nextModule ≤ module.number := by
  induction states generalizing machine with
  | nil => exact ⟨List.nodup_nil, fun _ member => absurd member List.not_mem_nil⟩
  | cons head rest inductionHypothesis =>
    obtain ⟨id, state⟩ := head
    obtain ⟨headApart, restApart⟩ := CodeStates.nodup_modules_cons.mp apart
    have restBelow : ∀ module ∈ CodeStates.modules rest, module.number < machine.nextModule :=
      fun module member => below module (CodeStates.mem_modules_cons.mpr (.inr member))
    cases state with
    | pending unit =>
      obtain ⟨grownWellFormed, -, numbered⟩ := emitUnit_tells wellFormed unit
      have next := (emitUnit_descends machine unit).nextModule
      obtain ⟨laterApart, known⟩ := inductionHypothesis grownWellFormed
        (fun module member => Nat.lt_of_lt_of_le (restBelow module member) next) restApart
      refine ⟨CodeStates.nodup_modules_cons.mpr ⟨fun module own again => ?_, laterApart⟩, ?_⟩
      · obtain ⟨sameNumber, nextNumber⟩ := numbered module own
        rcases known module again with old | new
        · have bound := restBelow module old
          omega
        · omega
      · intro module member
        rcases CodeStates.mem_modules_cons.mp member with own | later
        · exact .inr (Nat.le_of_eq (numbered module own).1)
        · rcases known module later with old | new
          · exact .inl (CodeStates.mem_modules_cons.mpr (.inr old))
          · exact .inr (Nat.le_trans next new)
    | excluded | failed error | emitted module initialized symbols references =>
      obtain ⟨laterApart, known⟩ := inductionHypothesis wellFormed restBelow restApart
      refine ⟨CodeStates.nodup_modules_cons.mpr ⟨fun module own again => ?_, laterApart⟩, ?_⟩
      · rcases known module again with old | new
        · exact headApart module own old
        · have bound := below module (CodeStates.mem_modules_cons.mpr (.inl own))
          omega
      · intro module member
        rcases CodeStates.mem_modules_cons.mp member with own | later
        · exact .inl (CodeStates.mem_modules_cons.mpr (.inl own))
        · exact (known module later).imp_left fun old => CodeStates.mem_modules_cons.mpr (.inr old)

namespace Orderly

/-- The numbers of states' modules were given. -/
theorem below (orderly : engine.Orderly) {module : ModuleId}
    (member : module ∈ CodeStates.modules engine.states) :
    module.number < engine.machine.nextModule := by
  obtain ⟨id, initialized, symbols, references, inStates⟩ := CodeStates.mem_modules_iff.mp member
  obtain ⟨unit, found, -⟩ := orderly.tells _ inStates
  exact orderly.machine.numbered _ (Machine.mem_of_module? found)

theorem emitPending (orderly : engine.Orderly) : engine.emitPending.Orderly where
  machine := (emitStates_descends engine.machine engine.states).wellFormed orderly.machine
  ascending := by
    have pairs : (engine.states.map Prod.fst).Pairwise fun left right : TransactionId =>
        left.number < right.number := List.pairwise_map.mpr orderly.ascending
    rw [← emitStates_fst engine.machine engine.states, List.pairwise_map] at pairs
    exact pairs
  tells := emitStates_tells orderly.machine orderly.tells
  apart := (emitStates_apart orderly.machine (fun _ => orderly.below) orderly.apart).1

/-! ## Steps -/

theorem mark (orderly : engine.Orderly) (id : TransactionId) : (engine.mark id).Orderly where
  machine := orderly.machine
  ascending := CodeStates.ascending_markInitialized orderly.ascending id
  tells entry member := by
    obtain ⟨original, inStates, rfl⟩ := List.mem_map.mp member
    exact CodeState.tells_marked (orderly.tells original inStates) id
  apart := by
    show (CodeStates.modules (markInitialized id engine.states)).Nodup
    rw [CodeStates.modules_markInitialized]
    exact orderly.apart

theorem continued (orderly : before.Orderly) (continues : before.machine.Continues after.machine)
    (states : after.states = before.states) : after.Orderly where
  machine := continues.wellFormed orderly.machine
  ascending := states ▸ orderly.ascending
  tells entry member := by
    rw [states] at member
    refine (orderly.tells entry member).mono fun id module found => ?_
    rw [continues.module?]
    exact found
  apart := states ▸ orderly.apart

theorem works (orderly : before.Orderly) (works : before.Works after) : after.Orderly := by
  cases works with
  | generated => exact orderly.emitPending
  | marked id => exact orderly.mark id
  | ran activity machine states journal => exact orderly.continued machine states
  | quiet machine states journal => exact orderly.continued machine states

theorem worked (orderly : before.Orderly) (course : Relation.ReflTransGen Works before after) :
    after.Orderly := by
  induction course with
  | refl => exact orderly
  | tail _ step inductionHypothesis => exact inductionHypothesis.works step

/-- A transaction may be tracked again. Its module stays then, without a state that tells of it. -/
theorem track (orderly : engine.Orderly) (transaction : Transaction) (unit : CodeUnit) :
    (engine.track transaction unit).Orderly := by
  have placed : ∀ state : CodeState, state.module? = none → state.Tells engine.machine →
      ∀ journal, Orderly { engine with
        states := placeState transaction.id state engine.states
        journal } := fun state noModule tells _ =>
    { machine := orderly.machine
      ascending := CodeStates.ascending_placeState state orderly.ascending
      tells := by
        intro entry member
        rcases CodeStates.mem_placeState member with rfl | old
        · exact tells
        · exact orderly.tells entry old
      apart := orderly.apart.sublist (CodeStates.sublist_modules_placeState noModule _) }
  unfold Engine.track
  cases transaction.options.generatesCode with
  | true => exact placed (.pending unit) rfl trivial _
  | false => exact placed .excluded rfl trivial _

theorem dropCode (orderly : engine.Orderly) (id : TransactionId) :
    (engine.dropCode id).Orderly := by
  have fewer : (engine.states.filter fun entry => entry.1 ≠ id).Sublist engine.states :=
    List.filter_sublist
  unfold Engine.dropCode
  dsimp only
  split
  · next module initialized symbols references emitted =>
    have gone := CodeStates.mem_of_find emitted
    refine ⟨orderly.machine.unload module, orderly.ascending.sublist fewer, ?_,
      orderly.apart.sublist (fewer.filterMap _)⟩
    intro entry member
    obtain ⟨old, other⟩ := List.mem_filter.mp member
    refine (orderly.tells entry old).unload orderly.machine fun same => ?_
    have own := CodeStates.eq_of_module orderly.apart old gone same rfl
    exact of_decide_eq_true other (congrArg Prod.fst own)
  · exact ⟨orderly.machine, orderly.ascending.sublist fewer,
      fun entry member => orderly.tells entry (fewer.subset member),
      orderly.apart.sublist (fewer.filterMap _)⟩

/-! ## Operations -/

theorem perform (orderly : before.Orderly) {operation : Operation}
    (performed : before.perform operation = .ok after) : after.Orderly := by
  cases operation with
  | track transaction unit =>
    cases performed
    exact orderly.track transaction unit
  | emitAndRun log id entry =>
    obtain ⟨⟨execution, _⟩, ran, rfl⟩ := ok_of_map performed
    exact orderly.worked (emitAndRun_works ran)
  | runCode owner origin address arguments =>
    obtain ⟨⟨result, _⟩, ran, rfl⟩ := ok_of_map performed
    exact orderly.works (runFor_works ran)
  | locate name =>
    cases performed
    exact orderly.worked (locate_works before name)
  | dependents id =>
    cases performed
    rw [dependents_eq]
    exact orderly.emitPending
  | unload id =>
    obtain ⟨⟨count, _⟩, ran, rfl⟩ := ok_of_map performed
    obtain ⟨between, owned, rfl⟩ := unload_course ran
    exact (orderly.worked (runOwned_works owned)).dropCode id
  | loadLibrary files name permanent searchPaths =>
    cases performed
    exact orderly.works (loadLibrary_works before files name permanent searchPaths)
  | unloadLibrary name =>
    obtain ⟨⟨result, _⟩, ran, rfl⟩ := ok_of_map performed
    exact orderly.worked (unloadLibrary_works ran)
  | runStaticDestructors =>
    obtain ⟨⟨count, _⟩, ran, rfl⟩ := ok_of_map performed
    exact orderly.worked (runStaticDestructors_works ran)
  | addFunction name function =>
    cases performed
    exact orderly.continued (.refl _) rfl
  | setCreator creator =>
    cases performed
    exact orderly.continued (.refl _) rfl
  | provideLibrary name library =>
    cases performed
    exact orderly.continued (.refl _) rfl

end Orderly

/-- An engine that operations lead to, between them or while one is under way. -/
inductive Reached (limits : Limits) (source : LibrarySource) : Engine → Prop where
  | start : Reached limits source (new limits source)
  | performed {before after : Engine} {operation : Operation}
      (reached : Reached limits source before)
      (performed : before.perform operation = .ok after) : Reached limits source after
  | works {before after : Engine} (reached : Reached limits source before)
      (works : before.Works after) : Reached limits source after

theorem reached_of_performed {limits : Limits} {source : LibrarySource} {operations : List Operation}
    (reached : Reached limits source before)
    (performed : operations.foldlM perform before = .ok after) : Reached limits source after := by
  induction operations generalizing before with
  | nil =>
    cases performed
    exact reached
  | cons operation rest inductionHypothesis =>
    rw [List.foldlM_cons] at performed
    cases step : before.perform operation with
    | error breakdown =>
      rw [step] at performed
      cases performed
    | ok between =>
      rw [step] at performed
      exact inductionHypothesis (.performed reached step) performed

theorem Reached.orderly {limits : Limits} {source : LibrarySource}
    (reached : Reached limits source engine) : engine.Orderly := by
  induction reached with
  | start => exact orderly_new limits source
  | performed _ performed inductionHypothesis => exact inductionHypothesis.perform performed
  | works _ works inductionHypothesis => exact inductionHypothesis.works works

end Engine

end IncrementalC
