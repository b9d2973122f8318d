import IncrementalC.Proofs.Engine.Running

/-!
Contract: the states of code.

States stand in the order of the commits, one for each transaction. A state says that
code is generated exactly if its module is live, and no two states share a module.

Owns: the moves of a state, well-formed engines, and that tracking, generating, marking
and dropping keep engines well formed.

Does not own: running code.
-/

namespace IncrementalC

/-- How the state of a transaction's code can change at a time. -/
inductive CodeMove : Option CodeState → Option CodeState → Prop where
  | stays (state : Option CodeState) : CodeMove state state
  | waits (unit : CodeUnit) : CodeMove none (some (.pending unit))
  | excluded : CodeMove none (some .excluded)
  | emitted (unit : CodeUnit) (module : ModuleId) (symbols references : List String) :
      CodeMove (some (.pending unit)) (some (.emitted module false symbols references))
  | failed (unit : CodeUnit) (error : GenerationError) :
      CodeMove (some (.pending unit)) (some (.failed error))
  | initialized (module : ModuleId) (symbols references : List String) :
      CodeMove (some (.emitted module false symbols references))
        (some (.emitted module true symbols references))
  | dropped (state : CodeState) : CodeMove (some state) none

/-- What lowering makes sure of: the initializers stand in the order of their declarations,
and no code leaves its frame. -/
structure CodeUnit.WellLowered (unit : CodeUnit) : Prop where
  ascending : (unit.initializers.map fun entry => entry.declaration.number).Pairwise (· < ·)
  framed : unit.Framed

theorem CodeUnit.wellLowered_empty (transaction : Option TransactionId) :
    (empty transaction).WellLowered :=
  ⟨.nil, framed_empty transaction⟩

/-- The module of generated code. -/
def CodeState.module? : CodeState → Option ModuleId
  | .emitted module _ _ _ => some module
  | .pending _ | .excluded | .failed _ => none

/-- What a state says about its code is so. -/
def CodeState.Holds (machine : Machine) : CodeState → Prop
  | .emitted module _ symbols references => ∃ unit,
      machine.module? module = some ⟨module, unit⟩ ∧ symbols = unit.definedNames ∧
        references = unit.references
  | .pending unit => unit.WellLowered
  | .excluded | .failed _ => True

/-- States by ascending number. -/
abbrev CodeStates : Type := List (TransactionId × CodeState)

namespace CodeStates

/-- The state of a transaction. -/
def find (states : CodeStates) (id : TransactionId) : Option CodeState :=
  (states.find? fun entry => entry.1 = id).map Prod.snd

def modules (states : CodeStates) : List ModuleId := states.filterMap fun entry => entry.2.module?

/-- The states stand by ascending number and agree with the machine. -/
structure WellFormed (states : CodeStates) (machine : Machine) : Prop where
  ascending : states.Pairwise fun left right => left.1.number < right.1.number
  holds : ∀ entry ∈ states, entry.2.Holds machine
  apart : (modules states).Nodup

variable {states : CodeStates} {machine : Machine} {id : TransactionId} {state : CodeState}

theorem find_cons (entry : TransactionId × CodeState) (states : CodeStates) (id : TransactionId) :
    find (entry :: states) id = if entry.1 = id then some entry.2 else find states id := by
  unfold find
  rw [List.find?_cons]
  by_cases same : entry.1 = id
  · simp [same]
  · simp [same]

theorem mem_of_find (found : find states id = some state) : (id, state) ∈ states := by
  obtain ⟨entry, entryFound, rfl⟩ := Option.map_eq_some_iff.mp found
  have matched := List.find?_some entryFound
  have same : entry.1 = id := of_decide_eq_true matched
  rw [← same]
  exact List.mem_of_find?_eq_some entryFound

theorem find_eq_none_iff : find states id = none ↔ ∀ entry ∈ states, entry.1 ≠ id := by
  unfold find
  rw [Option.map_eq_none_iff, List.find?_eq_none]
  simp

theorem find_of_mem (ascending : states.Pairwise fun left right => left.1.number < right.1.number)
    (member : (id, state) ∈ states) : find states id = some state := by
  induction states with
  | nil => exact absurd member List.not_mem_nil
  | cons head tail inductionHypothesis =>
    obtain ⟨below, tailAscending⟩ := List.pairwise_cons.mp ascending
    rw [find_cons]
    rcases List.mem_cons.mp member with rfl | later
    · rw [if_pos rfl]
    · have differs : head.1 ≠ id := by
        intro same
        have smaller := below _ later
        rw [same] at smaller
        exact Nat.lt_irrefl _ smaller
      rw [if_neg differs]
      exact inductionHypothesis tailAscending later

/-- A module belongs to a state if the state is that of its generated code. -/
theorem mem_modules_iff {module : ModuleId} : module ∈ modules states ↔
    ∃ id initialized symbols references,
      (id, CodeState.emitted module initialized symbols references) ∈ states := by
  unfold modules
  rw [List.mem_filterMap]
  constructor
  · rintro ⟨⟨id, state⟩, member, own⟩
    cases state with
    | emitted owned initialized symbols references =>
      obtain rfl := Option.some.inj own
      exact ⟨id, initialized, symbols, references, member⟩
    | pending unit => cases own
    | excluded => cases own
    | failed error => cases own
  · rintro ⟨id, initialized, symbols, references, member⟩
    exact ⟨_, member, rfl⟩

theorem mem_modules_cons {entry : TransactionId × CodeState} {module : ModuleId} :
    module ∈ modules (entry :: states) ↔
      entry.2.module? = some module ∨ module ∈ modules states := by
  unfold modules
  cases own : entry.2.module? with
  | none => simp [own]
  | some mine => simp [own, eq_comm]

theorem nodup_modules_cons {entry : TransactionId × CodeState} :
    (modules (entry :: states)).Nodup ↔
      (∀ module, entry.2.module? = some module → module ∉ modules states) ∧
        (modules states).Nodup := by
  unfold modules
  cases own : entry.2.module? with
  | none => simp [own]
  | some mine => simp [own]

/-- Two states with one module are one state. -/
theorem eq_of_module (apart : (modules states).Nodup) {left right : TransactionId × CodeState}
    (leftMember : left ∈ states) (rightMember : right ∈ states) {module : ModuleId}
    (leftModule : left.2.module? = some module) (rightModule : right.2.module? = some module) :
    left = right := by
  induction states with
  | nil => exact absurd leftMember List.not_mem_nil
  | cons head tail inductionHypothesis =>
    obtain ⟨headApart, tailApart⟩ := nodup_modules_cons.mp apart
    have shared : ∀ other ∈ tail, other.2.module? = some module →
        head.2.module? = some module → False := by
      intro other member otherModule headModule
      apply headApart module headModule
      exact List.mem_filterMap.mpr ⟨other, member, otherModule⟩
    rcases List.mem_cons.mp leftMember with rfl | leftLater
    · rcases List.mem_cons.mp rightMember with rfl | rightLater
      · rfl
      · exact (shared right rightLater rightModule leftModule).elim
    · rcases List.mem_cons.mp rightMember with rfl | rightLater
      · exact (shared left leftLater leftModule rightModule).elim
      · exact inductionHypothesis tailApart leftLater rightLater

/-- Two states with one module belong to one transaction. -/
theorem WellFormed.id_of_module (wellFormed : states.WellFormed machine)
    {left right : TransactionId × CodeState} (leftMember : left ∈ states)
    (rightMember : right ∈ states) {module : ModuleId} (leftModule : left.2.module? = some module)
    (rightModule : right.2.module? = some module) : left = right :=
  eq_of_module wellFormed.apart leftMember rightMember leftModule rightModule

/-! ## Tracking -/

theorem placeState_cons {head : TransactionId × CodeState} {tail : CodeStates}
    (differs : head.1 ≠ id) (state : CodeState) :
    Engine.placeState id state (head :: tail) =
      if head.1.number < id.number then head :: Engine.placeState id state tail
      else (id, state) :: head :: tail := by
  rw [Engine.placeState, if_neg differs]

theorem find_placeState (absent : ∀ entry ∈ states, entry.1 ≠ id) (state : CodeState)
    (other : TransactionId) :
    find (Engine.placeState id state states) other =
      if id = other then some state else find states other := by
  induction states with
  | nil => rw [Engine.placeState, find_cons]
  | cons head tail inductionHypothesis =>
    have headDiffers : head.1 ≠ id := absent head List.mem_cons_self
    have rest := inductionHypothesis fun entry member => absent entry (List.mem_cons_of_mem _ member)
    rw [placeState_cons headDiffers]
    by_cases smaller : head.1.number < id.number
    · rw [if_pos smaller, find_cons, rest, find_cons]
      by_cases same : id = other
      · rw [if_pos same, if_pos same, if_neg (same ▸ headDiffers)]
      · rw [if_neg same, if_neg same]
    · rw [if_neg smaller, find_cons]

theorem mem_placeState {entry : TransactionId × CodeState}
    (member : entry ∈ Engine.placeState id state states) : entry = (id, state) ∨ entry ∈ states := by
  induction states with
  | nil => exact .inl (List.mem_singleton.mp member)
  | cons head tail inductionHypothesis =>
    unfold Engine.placeState at member
    split at member
    · rcases List.mem_cons.mp member with rfl | later
      · exact .inr List.mem_cons_self
      · rcases inductionHypothesis later with new | old
        · exact .inl new
        · exact .inr (List.mem_cons_of_mem head old)
    · split at member
      · rcases List.mem_cons.mp member with rfl | later
        · exact .inl rfl
        · exact .inr (List.mem_cons_of_mem head later)
      · rcases List.mem_cons.mp member with rfl | later
        · exact .inl rfl
        · exact .inr later

/-- The state that a transaction had is replaced; all others keep their places. -/
theorem ascending_placeState (state : CodeState)
    (ascending : states.Pairwise fun left right => left.1.number < right.1.number) :
    (Engine.placeState id state states).Pairwise fun left right =>
      left.1.number < right.1.number := by
  induction states with
  | nil => exact List.pairwise_singleton _ _
  | cons head tail inductionHypothesis =>
    obtain ⟨below, tailAscending⟩ := List.pairwise_cons.mp ascending
    unfold Engine.placeState
    split
    · next smaller =>
      refine List.pairwise_cons.mpr ⟨?_, inductionHypothesis tailAscending⟩
      intro entry member
      rcases mem_placeState member with rfl | old
      · exact smaller
      · exact below entry old
    · next notSmaller =>
      split
      · next same =>
        rw [← same]
        exact List.pairwise_cons.mpr ⟨below, tailAscending⟩
      · next headDiffers =>
        have differs : head.1.number ≠ id.number := by
          intro same
          exact headDiffers (congrArg TransactionId.mk same)
        have idBelow : id.number < head.1.number := by omega
        refine List.pairwise_cons.mpr ⟨?_, ascending⟩
        intro entry member
        rcases List.mem_cons.mp member with rfl | later
        · exact idBelow
        · exact Nat.lt_trans idBelow (below entry later)

/-- A state without a module brings no module; the one that it replaces may have had one. -/
theorem sublist_modules_placeState (noModule : state.module? = none) (states : CodeStates) :
    (modules (Engine.placeState id state states)).Sublist (modules states) := by
  unfold modules
  induction states with
  | nil => simp [Engine.placeState, noModule]
  | cons head tail inductionHypothesis =>
    unfold Engine.placeState
    split
    · rw [List.filterMap_cons, List.filterMap_cons]
      cases head.2.module? with
      | none => exact inductionHypothesis
      | some module => exact inductionHypothesis.cons_cons module
    · split
      · simp only [List.filterMap_cons, noModule]
        cases head.2.module? with
        | none => exact .refl _
        | some module => exact List.sublist_cons_self module _
      · rw [List.filterMap_cons, noModule]

theorem modules_placeState (absent : ∀ entry ∈ states, entry.1 ≠ id)
    (noModule : state.module? = none) :
    modules (Engine.placeState id state states) = modules states := by
  unfold modules
  induction states with
  | nil => simp [Engine.placeState, noModule]
  | cons head tail inductionHypothesis =>
    have headDiffers : head.1 ≠ id := absent head List.mem_cons_self
    have rest := inductionHypothesis fun entry member =>
      absent entry (List.mem_cons_of_mem _ member)
    rw [placeState_cons headDiffers]
    by_cases smaller : head.1.number < id.number
    · rw [if_pos smaller, List.filterMap_cons, rest, List.filterMap_cons]
    · rw [if_neg smaller, List.filterMap_cons, noModule]

theorem WellFormed.placeState (wellFormed : states.WellFormed machine)
    (absent : ∀ entry ∈ states, entry.1 ≠ id) (noModule : state.module? = none)
    (holds : state.Holds machine) :
    WellFormed (Engine.placeState id state states) machine where
  ascending := ascending_placeState state wellFormed.ascending
  holds entry member := by
    rcases mem_placeState member with rfl | old
    · exact holds
    · exact wellFormed.holds entry old
  apart := by
    rw [modules_placeState absent noModule]
    exact wellFormed.apart

/-! ## Marking -/

/-- A state once its code counts as initialized. -/
def marked (id : TransactionId) (entry : TransactionId × CodeState) : TransactionId × CodeState :=
  match entry.2 with
  | .emitted module _ symbols references =>
    if entry.1 = id then (id, .emitted module true symbols references) else entry
  | _ => entry

theorem marked_fst (id : TransactionId) (entry : TransactionId × CodeState) :
    (marked id entry).1 = entry.1 := by
  unfold marked
  split
  · split
    · next same => exact same.symm
    · rfl
  · rfl

theorem marked_module? (id : TransactionId) (entry : TransactionId × CodeState) :
    (marked id entry).2.module? = entry.2.module? := by
  obtain ⟨other, state⟩ := entry
  cases state with
  | emitted module initialized symbols references =>
    unfold marked
    dsimp only
    split <;> rfl
  | pending unit => rfl
  | excluded => rfl
  | failed error => rfl

theorem marked_holds {entry : TransactionId × CodeState} (holds : entry.2.Holds machine) :
    (marked id entry).2.Holds machine := by
  obtain ⟨other, state⟩ := entry
  cases state with
  | emitted module initialized symbols references =>
    unfold marked
    dsimp only
    split <;> exact holds
  | pending unit => exact holds
  | excluded => exact holds
  | failed error => exact holds

/-- Code that waits to be generated is not marked. -/
theorem eq_pending_of_marked {other : TransactionId} {state : CodeState} {unit : CodeUnit}
    (waits : (marked id (other, state)).2 = .pending unit) : state = .pending unit := by
  cases state with
  | emitted module initialized symbols references =>
    unfold marked at waits
    dsimp only at waits
    split at waits <;> cases waits
  | pending unit => exact waits
  | excluded => exact waits
  | failed error => exact waits

theorem markInitialized_eq (id : TransactionId) (states : CodeStates) :
    Engine.markInitialized id states = states.map (marked id) := rfl

theorem find_markInitialized (id other : TransactionId) (states : CodeStates) :
    find (Engine.markInitialized id states) other =
      (find states other).map fun state => (marked id (other, state)).2 := by
  rw [markInitialized_eq]
  induction states with
  | nil => rfl
  | cons head tail inductionHypothesis =>
    rw [List.map_cons, find_cons, marked_fst, find_cons, inductionHypothesis]
    by_cases same : head.1 = other
    · subst same
      rw [if_pos rfl, if_pos rfl]
      rfl
    · rw [if_neg same, if_neg same]

theorem modules_markInitialized (id : TransactionId) (states : CodeStates) :
    modules (Engine.markInitialized id states) = modules states := by
  unfold modules
  rw [markInitialized_eq, List.filterMap_map]
  apply List.filterMap_congr
  intro entry _
  exact marked_module? id entry

theorem ascending_markInitialized
    (ascending : states.Pairwise fun left right => left.1.number < right.1.number)
    (id : TransactionId) :
    (Engine.markInitialized id states).Pairwise fun left right => left.1.number < right.1.number := by
  rw [markInitialized_eq, List.pairwise_map]
  apply ascending.imp
  intro left right below
  rw [marked_fst, marked_fst]
  exact below

theorem WellFormed.markInitialized (wellFormed : states.WellFormed machine) (id : TransactionId) :
    WellFormed (Engine.markInitialized id states) machine where
  ascending := ascending_markInitialized wellFormed.ascending id
  holds entry member := by
    rw [markInitialized_eq] at member
    obtain ⟨original, originalMember, rfl⟩ := List.mem_map.mp member
    exact marked_holds (wellFormed.holds original originalMember)
  apart := by
    rw [modules_markInitialized]
    exact wellFormed.apart

/-! ## Dropping -/

theorem find_filter_ne (states : CodeStates) (id other : TransactionId) :
    find (states.filter fun entry => entry.1 ≠ id) other =
      if other = id then none else find states other := by
  induction states with
  | nil =>
    split <;> rfl
  | cons head tail inductionHypothesis =>
    by_cases gone : head.1 = id
    · rw [List.filter_cons_of_neg (by simpa using gone), inductionHypothesis, find_cons]
      by_cases same : other = id
      · rw [if_pos same, if_pos same]
      · have differs : head.1 ≠ other := fun equal => same (equal.symm.trans gone)
        rw [if_neg same, if_neg same, if_neg differs]
    · rw [List.filter_cons_of_pos (by simpa using gone), find_cons, find_cons, inductionHypothesis]
      by_cases same : other = id
      · have differs : head.1 ≠ other := fun equal => gone (equal.trans same)
        rw [if_pos same, if_neg differs, if_pos same]
      · rw [if_neg same, if_neg same]

theorem WellFormed.sublist (wellFormed : states.WellFormed machine) {fewer : CodeStates}
    (sub : fewer.Sublist states) : fewer.WellFormed machine where
  ascending := wellFormed.ascending.sublist sub
  holds entry member := wellFormed.holds entry (sub.subset member)
  apart := wellFormed.apart.sublist (sub.filterMap _)

end CodeStates

/-! ## Generating -/

theorem CodeState.Holds.mono {machine larger : Machine} {state : CodeState}
    (holds : state.Holds machine)
    (kept : ∀ module unit, machine.module? module = some ⟨module, unit⟩ →
      larger.module? module = some ⟨module, unit⟩) : state.Holds larger := by
  cases state with
  | emitted module initialized symbols references =>
    obtain ⟨unit, found, sameSymbols, sameReferences⟩ := holds
    exact ⟨unit, kept module unit found, sameSymbols, sameReferences⟩
  | pending unit => exact holds
  | excluded => exact holds
  | failed error => exact holds

/-- Code stays when another module is removed. -/
theorem CodeState.Holds.unload {machine : Machine} {state : CodeState}
    (holds : state.Holds machine) (wellFormed : machine.WellFormed) {module : ModuleId}
    (differs : state.module? ≠ some module) : state.Holds (machine.unload module) := by
  cases state with
  | pending unit => exact holds
  | excluded => exact holds
  | failed error => exact holds
  | emitted own initialized symbols references =>
    obtain ⟨unit, found, sameSymbols, sameReferences⟩ := holds
    refine ⟨unit, ?_, sameSymbols, sameReferences⟩
    have stays : (⟨own, unit⟩ : Module) ∈ (machine.unload module).modules := by
      rw [Machine.unload_modules]
      refine List.mem_filter.mpr ⟨Machine.mem_of_module? found, decide_eq_true ?_⟩
      rintro rfl
      exact differs rfl
    exact (wellFormed.unload module).module?_of_mem stays

namespace Machine

variable {machine : Machine}

/-- The code of all live modules is well lowered. -/
def WellLowered (machine : Machine) : Prop := ∀ module ∈ machine.modules, module.unit.WellLowered

/-- `after` has the modules of `before`, and newer ones. -/
structure Grows (before after : Machine) : Prop where
  wellFormed : before.WellFormed → after.WellFormed
  lowered : before.WellLowered → after.WellLowered
  nextModule : before.nextModule ≤ after.nextModule
  kept : ∀ id module, before.module? id = some module → after.module? id = some module

theorem Grows.refl (machine : Machine) : machine.Grows machine :=
  ⟨id, id, Nat.le_refl _, fun _ _ => id⟩

theorem Grows.trans {before between after : Machine} (first : before.Grows between)
    (second : between.Grows after) : before.Grows after where
  wellFormed := second.wellFormed ∘ first.wellFormed
  lowered := second.lowered ∘ first.lowered
  nextModule := Nat.le_trans first.nextModule second.nextModule
  kept id module found := second.kept id module (first.kept id module found)

/-- Installing a unit adds a module with the next number. -/
theorem emit_grows {unit : CodeUnit} {id : ModuleId} {grown : Machine}
    (emitted : machine.emit unit = .ok (id, grown)) (lowered : unit.WellLowered) :
    machine.Grows grown ∧ id = ⟨machine.nextModule⟩ ∧ grown.nextModule = machine.nextModule + 1 ∧
      grown.modules = machine.modules ++ [⟨id, unit⟩] ∧
      (machine.WellFormed → grown.module? id = some ⟨id, unit⟩) := by
  have stays := fun wellFormed : machine.WellFormed => wellFormed.emit emitted
  obtain ⟨-, rfl, rfl⟩ := emit_eq emitted
  refine ⟨⟨stays, ?_, Nat.le_succ _, ?_⟩, rfl, rfl, rfl, ?_⟩
  · intro old module member
    rcases List.mem_append.mp member with older | new
    · exact old module older
    · rw [List.mem_singleton.mp new]
      exact lowered
  · intro other module found
    show List.find? _ (machine.modules ++ _) = some module
    rw [List.find?_append]
    unfold module? at found
    rw [found]
    rfl
  · intro wellFormed
    exact (stays wellFormed).module?_of_mem (List.mem_append_right _ (List.mem_singleton_self _))

end Machine

namespace Engine

/-- What an attempt to generate one unit leads to. -/
structure EmitsUnit (machine : Machine) (unit : CodeUnit) (grown : Machine) (state : CodeState) :
    Prop where
  grows : machine.Grows grown
  holds : state.Holds grown
  move : CodeMove (some (.pending unit)) (some state)
  settled : ∀ other, state ≠ .pending other
  fresh : ∀ module ∈ state.module?,
    machine.nextModule ≤ module.number ∧ module.number < grown.nextModule
  owned : ∀ module ∈ grown.modules, module ∈ machine.modules ∨ state.module? = some module.id

theorem emitUnit_emits {machine : Machine} (wellFormed : machine.WellFormed) {unit : CodeUnit}
    (lowered : unit.WellLowered) :
    EmitsUnit machine unit (emitUnit machine unit).1 (emitUnit machine unit).2 := by
  unfold emitUnit
  cases emitted : machine.emit unit with
  | error error =>
    exact
      { grows := .refl machine
        holds := trivial
        move := .failed unit error
        settled := fun _ => nofun
        fresh := fun _ absent => nomatch absent
        owned := fun _ member => .inl member }
  | ok result =>
    obtain ⟨id, grown⟩ := result
    obtain ⟨grows, rfl, next, modules, found⟩ := Machine.emit_grows emitted lowered
    refine
      { grows
        holds := ⟨unit, found wellFormed, ?_, ?_⟩
        move := .emitted unit _ _ _
        settled := fun _ => nofun
        fresh := ?_
        owned := ?_ }
    · simp only [Machine.symbolsOf, found wellFormed]
    · simp only [Machine.referencesOf, found wellFormed]
    · intro module same
      obtain rfl := Option.some.inj same
      exact ⟨Nat.le_refl _, by rw [next]; exact Nat.lt_succ_self _⟩
    · intro module member
      rw [modules] at member
      rcases List.mem_append.mp member with old | new
      · exact .inl old
      · rw [List.mem_singleton.mp new]
        exact .inr rfl

/-- Waiting code is generated or fails; other states stay. -/
structure Generated (old new : TransactionId × CodeState) : Prop where
  id : old.1 = new.1
  move : CodeMove (some old.2) (some new.2)
  stays : (∀ unit, old.2 ≠ .pending unit) → new.2 = old.2
  settled : ∀ unit, new.2 ≠ .pending unit

/-- What generating the waiting code among `states` leads to. -/
structure Generates (machine : Machine) (states : CodeStates) (grown : Machine)
    (generated : CodeStates) : Prop where
  grows : machine.Grows grown
  moves : List.Forall₂ Generated states generated
  holds : ∀ entry ∈ generated, entry.2.Holds grown
  newer : ∀ module ∈ CodeStates.modules generated, module ∈ CodeStates.modules states ∨
    (machine.nextModule ≤ module.number ∧ module.number < grown.nextModule)
  kept : ∀ module ∈ CodeStates.modules states, module ∈ CodeStates.modules generated
  owned : ∀ module ∈ grown.modules, module ∈ machine.modules ∨
    module.id ∈ CodeStates.modules generated
  apart : (∀ module ∈ CodeStates.modules states, module.number < machine.nextModule) →
    (CodeStates.modules states).Nodup → (CodeStates.modules generated).Nodup

section

variable {machine grown : Machine} {states generated : CodeStates} {id : TransactionId}

/-- A state that does not wait stays as it is. -/
theorem Generates.keep {state : CodeState} (tail : Generates machine states grown generated)
    (holds : state.Holds machine) (settled : ∀ unit, state ≠ .pending unit) :
    Generates machine ((id, state) :: states) grown ((id, state) :: generated) where
  grows := tail.grows
  moves := .cons ⟨rfl, .stays _, fun _ => rfl, settled⟩ tail.moves
  holds entry member := by
    rcases List.mem_cons.mp member with rfl | later
    · exact holds.mono fun module unit found => tail.grows.kept module _ found
    · exact tail.holds entry later
  newer module member := by
    rw [CodeStates.mem_modules_cons] at member ⊢
    rcases member with own | later
    · exact .inl (.inl own)
    · exact (tail.newer module later).imp_left .inr
  kept module member := by
    rw [CodeStates.mem_modules_cons] at member ⊢
    exact member.imp_right (tail.kept module)
  owned module member :=
    (tail.owned module member).imp_right fun later =>
      CodeStates.mem_modules_cons.mpr (.inr later)
  apart below distinct := by
    rw [CodeStates.nodup_modules_cons] at distinct ⊢
    have tailBelow : ∀ module ∈ CodeStates.modules states, module.number < machine.nextModule :=
      fun module member => below module (CodeStates.mem_modules_cons.mpr (.inr member))
    refine ⟨?_, tail.apart tailBelow distinct.2⟩
    intro module own again
    have bound := below module (CodeStates.mem_modules_cons.mpr (.inl own))
    rcases tail.newer module again with old | ⟨fresh, -⟩
    · exact distinct.1 module own old
    · omega

/-- Waiting code gets a module that no other code has. -/
theorem Generates.generate {unit : CodeUnit} (wellFormed : machine.WellFormed)
    (lowered : unit.WellLowered)
    (tail : Generates (emitUnit machine unit).1 states grown generated) :
    Generates machine ((id, .pending unit) :: states) grown
      ((id, (emitUnit machine unit).2) :: generated) := by
  obtain ⟨headGrows, unitHolds, move, settled, fresh, owned⟩ := emitUnit_emits wellFormed lowered
  have noModule : CodeStates.modules ((id, .pending unit) :: states) = CodeStates.modules states :=
    rfl
  have next := headGrows.nextModule
  have final := tail.grows.nextModule
  constructor
  case grows => exact headGrows.trans tail.grows
  case moves => exact .cons ⟨rfl, move, fun waits => absurd rfl (waits unit), settled⟩ tail.moves
  case holds =>
    intro entry member
    rcases List.mem_cons.mp member with rfl | later
    · exact unitHolds.mono fun module unit found => tail.grows.kept module _ found
    · exact tail.holds entry later
  case newer =>
    intro module member
    rw [noModule]
    rcases CodeStates.mem_modules_cons.mp member with own | later
    · have bounds := fresh module own
      right
      omega
    · apply (tail.newer module later).imp_right
      omega
  case kept =>
    intro module member
    rw [noModule] at member
    exact CodeStates.mem_modules_cons.mpr (.inr (tail.kept module member))
  case owned =>
    intro module member
    rw [CodeStates.mem_modules_cons]
    rcases tail.owned module member with head | later
    · exact (owned module head).imp_right .inl
    · exact .inr (.inr later)
  case apart =>
    intro below distinct
    rw [noModule] at below distinct
    have tailBelow : ∀ module ∈ CodeStates.modules states,
        module.number < (emitUnit machine unit).1.nextModule :=
      fun module member => Nat.lt_of_lt_of_le (below module member) next
    refine CodeStates.nodup_modules_cons.mpr ⟨?_, tail.apart tailBelow distinct⟩
    intro module own again
    have bounds := fresh module own
    rcases tail.newer module again with old | ⟨later, -⟩
    · have bound := below module old
      omega
    · omega

end

theorem emitStates_generates {machine : Machine} (wellFormed : machine.WellFormed)
    {states : CodeStates} (holds : ∀ entry ∈ states, entry.2.Holds machine) :
    Generates machine states (emitStates machine states).1 (emitStates machine states).2 := by
  induction states generalizing machine with
  | nil =>
    exact
      { grows := .refl machine
        moves := .nil
        holds := fun _ member => absurd member List.not_mem_nil
        newer := fun _ member => absurd member List.not_mem_nil
        kept := fun _ member => absurd member List.not_mem_nil
        owned := fun _ member => .inl member
        apart := fun _ nodup => nodup }
  | cons head tail inductionHypothesis =>
    obtain ⟨id, state⟩ := head
    have headHolds := holds _ List.mem_cons_self
    have tailHolds : ∀ entry ∈ tail, entry.2.Holds machine :=
      fun entry member => holds entry (List.mem_cons_of_mem _ member)
    cases state with
    | excluded => exact (inductionHypothesis wellFormed tailHolds).keep headHolds fun _ => nofun
    | emitted module initialized symbols references =>
      exact (inductionHypothesis wellFormed tailHolds).keep headHolds fun _ => nofun
    | failed error => exact (inductionHypothesis wellFormed tailHolds).keep headHolds fun _ => nofun
    | pending unit =>
      have headGrows := (emitUnit_emits wellFormed headHolds).grows
      apply Generates.generate wellFormed headHolds
      apply inductionHypothesis (headGrows.wellFormed wellFormed)
      intro entry member
      exact (tailHolds entry member).mono fun module unit found => headGrows.kept module _ found

end Engine

end IncrementalC
