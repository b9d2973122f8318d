import IncrementalC.Proofs.Engine.Precedence

/-!
Contract: engines stay well formed.

Owns: well-formed engines, and what tracking, generating, marking, dropping and running
do to the states of code.

Does not own: when any of them is done.
-/

namespace IncrementalC

/-- Generated code that the action calls is a function. -/
def AtExitAction.CallsFunctions (action : AtExitAction) : Prop :=
  ∀ name address argument, action.callback = .generated name address argument →
    address.kind = .function

theorem AtExitAction.CallsFunction.callsFunctions {machine : Machine} {action : AtExitAction}
    (calls : action.CallsFunction machine) : action.CallsFunctions := by
  obtain ⟨name, address, argument, callback, found⟩ := calls
  intro other otherAddress otherArgument same
  rw [callback] at same
  obtain ⟨-, rfl, -⟩ := AtExitCallback.generated.inj same
  have isFunction := (Option.filter_eq_some_iff.mp found).2
  exact of_decide_eq_true isFunction

/-- What holds of the code at any time: the live modules are those of the states. -/
structure CodeStands (code : Machine) (known : CodeStates) : Prop where
  machine : code.WellFormed
  lowered : code.WellLowered
  states : known.WellFormed code
  owned : ∀ module ∈ code.modules, module.id ∈ known.modules
  precedent : known.Precedent

namespace CodeStands

variable {machine : Machine} {states : CodeStates}

/-- A live module is the code of a transaction, whose state tells what the module defines and
refers to. -/
theorem exists_state (stands : CodeStands machine states) {module : Module}
    (live : module ∈ machine.modules) : ∃ id initialized,
      CodeStates.find states id = some (.emitted module.id initialized module.unit.definedNames
        module.unit.references) := by
  obtain ⟨id, initialized, symbols, references, member⟩ :=
    CodeStates.mem_modules_iff.mp (stands.owned module live)
  obtain ⟨unit, found, rfl, rfl⟩ := stands.states.holds _ member
  rw [stands.machine.module?_of_mem live] at found
  obtain rfl : module.unit = unit := congrArg Module.unit (Option.some.inj found)
  exact ⟨id, initialized, CodeStates.find_of_mem stands.states.ascending member⟩

/-- What a name denotes belongs to a generated transaction that defines the name. -/
theorem definer (stands : CodeStands machine states) {name : String} {place : Address}
    (found : machine.resolve? name = some place) :
    ∃ id initialized symbols references,
      CodeStates.find states id = some (.emitted place.module initialized symbols references) ∧
        name ∈ symbols := by
  obtain ⟨module, live, here⟩ := Machine.exists_of_resolve? found
  have defined := (module.isSome_address?_iff name).mp (by rw [here]; rfl)
  rw [Module.address?_module here]
  obtain ⟨id, initialized, state⟩ := stands.exists_state live
  exact ⟨id, initialized, _, _, state, defined⟩

end CodeStands

/-- What holds of an engine between operations. -/
structure Engine.WellFormed (engine : Engine) : Prop
    extends CodeStands engine.machine engine.states where
  registered : ∀ action ∈ engine.host.atExit, action.CallsFunctions

namespace Engine

theorem wellFormed_new (limits : Limits) (source : LibrarySource) :
    (new limits source).WellFormed where
  machine := Machine.wellFormed_new limits
  lowered _ member := absurd member List.not_mem_nil
  states := ⟨.nil, fun _ member => absurd member List.not_mem_nil, List.nodup_nil⟩
  owned _ member := absurd member List.not_mem_nil
  precedent := CodeStates.precedent_nil
  registered _ member := absurd member List.not_mem_nil

variable {engine before after : Engine}

theorem state?_eq_find (engine : Engine) (id : TransactionId) :
    engine.state? id = CodeStates.find engine.states id := rfl

theorem Continues.state? (continues : before.Continues after) (id : TransactionId) :
    after.state? id = before.state? id := by
  rw [state?_eq_find, state?_eq_find, continues.states]

theorem Continues.wellFormed (continues : before.Continues after)
    (wellFormed : before.WellFormed) : after.WellFormed where
  machine := continues.machine.wellFormed wellFormed.machine
  lowered module member := wellFormed.lowered module (continues.machine.modules ▸ member)
  states := by
    rw [continues.states]
    refine ⟨wellFormed.states.ascending, ?_, wellFormed.states.apart⟩
    intro entry member
    apply (wellFormed.states.holds entry member).mono
    intro module unit found
    rw [continues.machine.module?]
    exact found
  owned module member := by
    rw [continues.states]
    exact wellFormed.owned module (continues.machine.modules ▸ member)
  precedent := by
    rw [continues.states]
    exact wellFormed.precedent
  registered := by
    obtain ⟨actions, registry, calls⟩ := continues.host.atExit
    rw [registry]
    intro action member
    rcases List.mem_append.mp member with new | old
    · exact (calls action new).callsFunctions
    · exact wellFormed.registered action old

/-! ## Tracking -/

theorem WellFormed.track (wellFormed : engine.WellFormed) {transaction : Transaction}
    {unit : CodeUnit} (newest : ∀ entry ∈ engine.states, entry.1.number < transaction.id.number)
    (lowered : unit.WellLowered) : (engine.track transaction unit).WellFormed := by
  have absent : ∀ entry ∈ engine.states, entry.1 ≠ transaction.id := by
    intro entry member same
    have smaller := newest entry member
    rw [same] at smaller
    exact Nat.lt_irrefl _ smaller
  have placed : ∀ state : CodeState, state.module? = none → state.Holds engine.machine →
      CodeStands engine.machine (placeState transaction.id state engine.states) :=
    fun state noModule holds =>
      { machine := wellFormed.machine
        lowered := wellFormed.lowered
        states := wellFormed.states.placeState absent noModule holds
        owned := by
          rw [CodeStates.modules_placeState absent noModule]
          exact wellFormed.owned
        precedent := wellFormed.precedent.placeState newest noModule }
  refine ⟨?_, wellFormed.registered⟩
  unfold Engine.track
  cases transaction.options.generatesCode with
  | true => exact placed _ rfl lowered
  | false => exact placed _ rfl trivial

theorem state?_track {transaction : Transaction} (unit : CodeUnit)
    (untracked : engine.state? transaction.id = none) (id : TransactionId) :
    (engine.track transaction unit).state? id =
      if transaction.id = id then
        some (if transaction.options.generatesCode then .pending unit else .excluded)
      else engine.state? id :=
  CodeStates.find_placeState (CodeStates.find_eq_none_iff.mp untracked) _ id

theorem state?_track_of_ne {transaction : Transaction} (unit : CodeUnit)
    (untracked : engine.state? transaction.id = none) {id : TransactionId}
    (differs : transaction.id ≠ id) :
    (engine.track transaction unit).state? id = engine.state? id := by
  rw [state?_track unit untracked, if_neg differs]

theorem track_moves {transaction : Transaction} (unit : CodeUnit)
    (untracked : engine.state? transaction.id = none) (id : TransactionId) :
    CodeMove (engine.state? id) ((engine.track transaction unit).state? id) := by
  rw [state?_track unit untracked]
  by_cases same : transaction.id = id
  · rw [if_pos same, ← same, untracked]
    cases transaction.options.generatesCode with
    | true => exact .waits unit
    | false => exact .excluded
  · rw [if_neg same]
    exact .stays _

/-! ## Generating -/

theorem emitPending_generates (wellFormed : engine.WellFormed) :
    Generates engine.machine engine.states engine.emitPending.machine engine.emitPending.states :=
  emitStates_generates wellFormed.machine wellFormed.states.holds

/-- Modules of states are live. -/
theorem WellFormed.module_below (wellFormed : engine.WellFormed) {module : ModuleId}
    (member : module ∈ CodeStates.modules engine.states) :
    module.number < engine.machine.nextModule := by
  obtain ⟨entry, entryMember, own⟩ := List.mem_filterMap.mp member
  have holds := wellFormed.states.holds entry entryMember
  obtain ⟨id, state⟩ := entry
  cases state with
  | emitted other initialized symbols references =>
    obtain rfl := Option.some.inj own
    obtain ⟨unit, found, -⟩ := holds
    exact wellFormed.machine.numbered _ (Machine.mem_of_module? found)
  | pending unit => cases own
  | excluded => cases own
  | failed error => cases own

private theorem ascending_of_moves {states generated : CodeStates}
    (moves : List.Forall₂ Generated states generated)
    (ascending : states.Pairwise fun left right => left.1.number < right.1.number) :
    generated.Pairwise fun left right => left.1.number < right.1.number := by
  have sameIds : generated.map Prod.fst = states.map Prod.fst := by
    clear ascending
    induction moves with
    | nil => rfl
    | cons head _ inductionHypothesis =>
    rw [List.map_cons, List.map_cons, head.id, inductionHypothesis]
  have pairs : (states.map Prod.fst).Pairwise fun left right : TransactionId =>
      left.number < right.number := by
    rw [List.pairwise_map]
    exact ascending
  rw [← sameIds, List.pairwise_map] at pairs
  exact pairs

theorem WellFormed.emitPending (wellFormed : engine.WellFormed) : engine.emitPending.WellFormed := by
  have generates := emitPending_generates wellFormed
  exact
    { machine := generates.grows.wellFormed wellFormed.machine
      lowered := generates.grows.lowered wellFormed.lowered
      states :=
        { ascending := ascending_of_moves generates.moves wellFormed.states.ascending
          holds := generates.holds
          apart := generates.apart (fun _ => wellFormed.module_below) wellFormed.states.apart }
      owned := by
        intro module member
        rcases generates.owned module member with old | new
        · exact generates.kept _ (wellFormed.owned module old)
        · exact new
      precedent := wellFormed.precedent.generate generates.moves
      registered := wellFormed.registered }

theorem emitPending_moves (wellFormed : engine.WellFormed) (id : TransactionId) :
    CodeMove (engine.state? id) (engine.emitPending.state? id) := by
  rw [state?_eq_find, state?_eq_find]
  rcases CodeStates.find_generated (emitPending_generates wellFormed).moves id with
    ⟨old, new⟩ | ⟨_, _, old, new, move⟩
  · rw [old, new]
    exact .stays _
  · rw [old, new]
    exact move.move

theorem state?_emitPending_eq_none_iff (wellFormed : engine.WellFormed) {id : TransactionId} :
    engine.emitPending.state? id = none ↔ engine.state? id = none := by
  rw [state?_eq_find, state?_eq_find]
  rcases CodeStates.find_generated (emitPending_generates wellFormed).moves id with
    ⟨old, new⟩ | ⟨_, _, old, new, -⟩ <;> simp [old, new]

/-- Only waiting code is generated. -/
theorem state?_emitPending (wellFormed : engine.WellFormed) {id : TransactionId}
    {state : CodeState} (known : engine.state? id = some state)
    (stays : ∀ unit, state ≠ .pending unit) : engine.emitPending.state? id = some state := by
  rw [state?_eq_find] at known ⊢
  rcases CodeStates.find_generated (emitPending_generates wellFormed).moves id with
    ⟨old, -⟩ | ⟨_, _, old, new, move⟩
  · rw [old] at known
    cases known
  · obtain rfl := Option.some.inj (old.symm.trans known)
    rw [new]
    exact congrArg some (move.stays stays)

/-- No code waits any more. -/
theorem state?_emitPending_ne_pending (wellFormed : engine.WellFormed) (id : TransactionId)
    (unit : CodeUnit) : engine.emitPending.state? id ≠ some (.pending unit) := by
  rw [state?_eq_find]
  rcases CodeStates.find_generated (emitPending_generates wellFormed).moves id with
    ⟨-, new⟩ | ⟨_, _, -, new, move⟩
  · rw [new]
    nofun
  · rw [new]
    exact fun same => move.settled unit (Option.some.inj same)

/-! ## Marking -/

/-- The engine with the code of a transaction marked as initialized. -/
def mark (engine : Engine) (id : TransactionId) : Engine :=
  { engine with states := markInitialized id engine.states }.note (.initialized id)

/-- The transaction uses no name of an earlier one that is not initialized. -/
def UsesNoneWaiting (engine : Engine) (id : TransactionId) : Prop :=
  ∀ {module earlierModule initialized symbols references earlierSymbols earlierReferences}
    {earlier : TransactionId},
    engine.state? id = some (.emitted module initialized symbols references) →
    engine.state? earlier =
      some (.emitted earlierModule false earlierSymbols earlierReferences) →
    earlier.number < id.number → ∀ name ∈ references, name ∉ earlierSymbols

theorem WellFormed.mark (wellFormed : engine.WellFormed) {id : TransactionId}
    (settled : ∀ other unit, engine.state? other ≠ some (.pending unit))
    (uses : engine.UsesNoneWaiting id) : (engine.mark id).WellFormed where
  machine := wellFormed.machine
  lowered := wellFormed.lowered
  states := wellFormed.states.markInitialized id
  owned := by
    intro module member
    have old := wellFormed.owned module member
    rwa [← CodeStates.modules_markInitialized id] at old
  precedent := wellFormed.precedent.markInitialized settled uses
  registered := wellFormed.registered

theorem state?_mark (engine : Engine) (id other : TransactionId) :
    (engine.mark id).state? other =
      (engine.state? other).map fun state => (CodeStates.marked id (other, state)).2 :=
  CodeStates.find_markInitialized id other engine.states

theorem state?_mark_of_ne (engine : Engine) {id other : TransactionId} (differs : other ≠ id) :
    (engine.mark id).state? other = engine.state? other := by
  rw [state?_mark]
  cases engine.state? other with
  | none => rfl
  | some state =>
    cases state with
    | emitted module initialized symbols references =>
      simp only [Option.map_some, CodeStates.marked, if_neg differs]
    | pending unit => rfl
    | excluded => rfl
    | failed error => rfl

theorem state?_mark_self {id : TransactionId} {module : ModuleId} {initialized : Bool}
    {symbols references : List String}
    (emitted : engine.state? id = some (.emitted module initialized symbols references)) :
    (engine.mark id).state? id = some (.emitted module true symbols references) := by
  rw [state?_mark, emitted]
  simp only [Option.map_some, CodeStates.marked, if_true]

theorem mark_moves {id : TransactionId} {module : ModuleId} {symbols references : List String}
    (waiting : engine.state? id = some (.emitted module false symbols references))
    (other : TransactionId) : CodeMove (engine.state? other) ((engine.mark id).state? other) := by
  by_cases same : other = id
  · subst same
    rw [waiting, state?_mark_self waiting]
    exact .initialized module symbols references
  · rw [state?_mark_of_ne engine same]
    exact .stays _

/-! ## Dropping -/

theorem WellFormed.dropCode (wellFormed : engine.WellFormed) (id : TransactionId) :
    (engine.dropCode id).WellFormed := by
  have fewer : (engine.states.filter fun entry => entry.1 ≠ id).Sublist engine.states :=
    List.filter_sublist
  have kept := wellFormed.states.sublist fewer
  have precedent := wellFormed.precedent.drop id
  unfold Engine.dropCode
  dsimp only
  split
  · next module initialized symbols references emitted =>
    have gone := CodeStates.mem_of_find emitted
    refine
      { machine := wellFormed.machine.unload module
        lowered := ?_
        states := ⟨kept.ascending, ?_, kept.apart⟩
        owned := ?_
        precedent
        registered := wellFormed.registered }
    · intro other member
      have stays : other ∈ (engine.machine.unload module).modules := member
      rw [Machine.unload_modules] at stays
      exact wellFormed.lowered other (List.mem_of_mem_filter stays)
    · intro entry member
      obtain ⟨old, other⟩ := List.mem_filter.mp member
      apply (wellFormed.states.holds entry old).unload wellFormed.machine
      intro same
      have own := wellFormed.states.id_of_module old gone same rfl
      simp only [decide_eq_true_eq] at other
      exact other (congrArg Prod.fst own)
    · intro live member
      have stays : live ∈ (engine.machine.unload module).modules := member
      rw [Machine.unload_modules] at stays
      obtain ⟨old, differs⟩ := List.mem_filter.mp stays
      obtain ⟨entry, entryMember, own⟩ := List.mem_filterMap.mp (wellFormed.owned live old)
      refine List.mem_filterMap.mpr ⟨entry, List.mem_filter.mpr ⟨entryMember, ?_⟩, own⟩
      rw [decide_eq_true_eq]
      rintro rfl
      have found := CodeStates.find_of_mem wellFormed.states.ascending entryMember
      obtain same := Option.some.inj (emitted.symm.trans found)
      rw [← same] at own
      obtain rfl := Option.some.inj own
      simp at differs
  · next unemitted =>
    refine
      { machine := wellFormed.machine
        lowered := wellFormed.lowered
        states := kept
        owned := ?_
        precedent
        registered := wellFormed.registered }
    intro live member
    obtain ⟨entry, entryMember, own⟩ := List.mem_filterMap.mp (wellFormed.owned live member)
    refine List.mem_filterMap.mpr ⟨entry, List.mem_filter.mpr ⟨entryMember, ?_⟩, own⟩
    rw [decide_eq_true_eq]
    rintro rfl
    have found := CodeStates.find_of_mem wellFormed.states.ascending entryMember
    obtain ⟨other, state⟩ := entry
    cases state with
    | emitted module initialized symbols references => exact unemitted _ _ _ _ found
    | pending unit => cases own
    | excluded => cases own
    | failed error => cases own

theorem state?_dropCode (engine : Engine) (id other : TransactionId) :
    (engine.dropCode id).state? other = if other = id then none else engine.state? other :=
  CodeStates.find_filter_ne engine.states id other

theorem dropCode_moves (engine : Engine) (id other : TransactionId) :
    CodeMove (engine.state? other) ((engine.dropCode id).state? other) := by
  rw [state?_dropCode]
  by_cases same : other = id
  · rw [if_pos same]
    cases engine.state? other with
    | none => exact .stays _
    | some state => exact .dropped state
  · rw [if_neg same]
    exact .stays _

end Engine

end IncrementalC
