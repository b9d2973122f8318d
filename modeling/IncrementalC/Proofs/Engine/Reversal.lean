import IncrementalC.Proofs.Engine.Bindings
import IncrementalC.Proofs.Engine.Containment
import IncrementalC.Proofs.Engine.Supplying

/-!
Contract: code that is tracked and dropped again.

Waiting code is generated in the order of the commits, so the newest is generated last, into a
module of its own, or not at all. Dropping it then leaves what generating the others leaves.

Owns: dropping the newest code.

Does not own: code that was run.
-/

namespace IncrementalC.Engine

/-! ## The newest state -/

theorem placeState_newest {states : CodeStates} {id : TransactionId}
    (newest : ∀ entry ∈ states, entry.1.number < id.number) (state : CodeState) :
    placeState id state states = states ++ [(id, state)] := by
  induction states with
  | nil => rfl
  | cons head tail inductionHypothesis =>
    rw [List.forall_mem_cons] at newest
    rw [placeState, if_pos newest.1, inductionHypothesis newest.2, List.cons_append]

/-- States that come later are generated after those before. -/
theorem emitStates_append (machine : Machine) (states more : CodeStates) :
    emitStates machine (states ++ more) =
      ((emitStates (emitStates machine states).1 more).1,
        (emitStates machine states).2 ++ (emitStates (emitStates machine states).1 more).2) := by
  induction states generalizing machine with
  | nil => rfl
  | cons entry rest inductionHypothesis =>
    obtain ⟨id, state⟩ := entry
    cases state <;> simp only [List.cons_append, emitStates, inductionHypothesis]

/-- Generating code and dropping it again leaves nothing of it but the number of its module. -/
theorem dropCode_newest {tracked : Engine} {machine : Machine} {states : CodeStates}
    {id : TransactionId} {unit : CodeUnit} (wellFormed : machine.WellFormed)
    (foreign : ∀ entry ∈ states, entry.1 ≠ id)
    (grown : tracked.machine = (emitUnit machine unit).1)
    (generated : tracked.states = states ++ [(id, (emitUnit machine unit).2)]) :
    (tracked.dropCode id).states = states ∧
      ∃ nextModule, (tracked.dropCode id).machine = { machine with nextModule } := by
  have own : tracked.state? id = some (emitUnit machine unit).2 := by
    unfold state?
    rw [generated, List.find?_append, List.find?_eq_none.mpr]
    · simp
    · intro entry member
      simpa using foreign entry member
  have rest : tracked.states.filter (fun entry => entry.1 ≠ id) = states := by
    rw [generated, List.filter_append, List.filter_eq_self.mpr]
    · simp
    · exact fun entry member => decide_eq_true (foreign entry member)
  refine ⟨rest, ?_⟩
  unfold dropCode
  simp only [own, note]
  unfold emitUnit at grown ⊢
  cases emitted : machine.emit unit with
  | error error =>
    rw [emitted] at grown
    exact ⟨machine.nextModule, grown⟩
  | ok result =>
    rw [emitted] at grown
    dsimp only at grown ⊢
    rw [grown]
    exact ⟨machine.nextModule + 1, wellFormed.unload_emit emitted⟩

/-- Unloading a transaction that owns no action runs nothing. -/
theorem runOwned_of_unowned {engine after : Engine} {owner : AtExitOwner} {count : Nat}
    (unowned : ∀ action ∈ engine.host.atExit, action.owner ≠ owner)
    (ran : engine.runOwned owner = .ok (count, after)) : after = engine := by
  have none : engine.host.atExit.takeOwned owner = ([], engine.host.atExit) := by
    unfold AtExitRegistry.takeOwned
    rw [List.filter_eq_nil_iff.mpr, List.filter_eq_self.mpr]
    · exact fun action member => decide_eq_true (unowned action member)
    · exact fun action member own => unowned action member (of_decide_eq_true own)
  unfold runOwned at ran
  rw [none] at ran
  cases ran
  rfl

/-- Unloading the newest transaction before anything runs leaves what is generated without it. -/
theorem unload_newest {engine tracked after : Engine} {id : TransactionId} {unit : CodeUnit}
    {count : Nat} (wellFormed : engine.WellFormed) (foreign : ∀ entry ∈ engine.states, entry.1 ≠ id)
    (machine : tracked.machine = engine.machine)
    (states : tracked.states = engine.states ++ [(id, .pending unit)])
    (unowned : ∀ action ∈ tracked.host.atExit, action.owner ≠ .transaction id)
    (ran : tracked.emitPending.unload id = .ok (count, after)) :
    after.states = engine.emitPending.states ∧
      (∃ nextModule, after.machine = { engine.emitPending.machine with nextModule }) ∧
      after.host = tracked.host := by
  obtain ⟨between, run, rfl⟩ := unload_course ran
  have unownedToo : ∀ action ∈ tracked.emitPending.host.atExit, action.owner ≠ .transaction id :=
    unowned
  obtain rfl := runOwned_of_unowned unownedToo run
  have emits := emitStates_append engine.machine engine.states [(id, .pending unit)]
  have generated : emitStates tracked.machine tracked.states =
      ((emitUnit engine.emitPending.machine unit).1,
        engine.emitPending.states ++ [(id, (emitUnit engine.emitPending.machine unit).2)]) := by
    rw [machine, states]
    exact emits
  have foreignToo : ∀ entry ∈ engine.emitPending.states, entry.1 ≠ id := by
    intro entry member
    have known : entry.1 ∈ engine.emitPending.states.map Prod.fst := List.mem_map_of_mem member
    rw [show engine.emitPending.states.map Prod.fst = engine.states.map Prod.fst from
      emitStates_fst engine.machine engine.states] at known
    obtain ⟨old, oldMember, same⟩ := List.mem_map.mp known
    exact same ▸ foreign old oldMember
  have grown : tracked.emitPending.machine = _ := congrArg Prod.fst generated
  have added : tracked.emitPending.states = _ := congrArg Prod.snd generated
  obtain ⟨sameStates, sameMachine⟩ :=
    dropCode_newest wellFormed.emitPending.machine foreignToo grown added
  exact ⟨sameStates, sameMachine, rfl⟩

/-! ## Where names are -/

/-- Where a name is depends on the generated code and on the native functions. -/
theorem locate_fst (engine : Engine) (name : String) :
    (engine.locate name).1 = match engine.emitPending.machine.resolve? name with
      | some address => some (.generated address)
      | none => if (engine.host.resolver.native? name).isSome then some .native else none := by
  unfold locate
  dsimp only
  cases engine.emitPending.machine.resolve? name with
  | some address => rfl
  | none =>
    have asked := Resolver.resolve_fst engine.host.resolver name engine.host.trace
    rw [← asked]
    rfl

theorem locate_fst_congr {engine other : Engine} {name : String}
    (resolves : other.emitPending.machine.resolve? name = engine.emitPending.machine.resolve? name)
    (resolver : other.host.resolver = engine.host.resolver) :
    (other.locate name).1 = (engine.locate name).1 := by
  rw [locate_fst, locate_fst, resolves, resolver]

/-- Generating again changes nothing. -/
theorem emitPending_of_generated {engine other : Engine} (wellFormed : engine.WellFormed)
    (states : other.states = engine.emitPending.states) :
    other.emitPending.machine = other.machine := by
  have settled : ∀ entry ∈ other.states, ∀ unit, entry.2 ≠ .pending unit :=
    states ▸ settled_emitPending wellFormed
  exact congrArg Prod.fst (emitStates_of_settled settled)

/-- Live variables keep their values while code is generated. -/
theorem globalValue?_emitPending {engine : Engine} {name : String} {value : Int64}
    (live : engine.machine.globalValue? name = some value) :
    engine.emitPending.machine.globalValue? name = some value := by
  obtain ⟨more, globals⟩ := engine.emitPending_adds.2
  obtain ⟨entry, found, rfl⟩ := Option.map_eq_some_iff.mp live
  unfold Machine.globalValue? Machine.GlobalStore.get?
  rw [← globals, List.find?_append, found]
  rfl

end IncrementalC.Engine
