import IncrementalC.Proofs.Engine.Bindings

/-!
Contract: names that live and waiting code defines.

Code is refused if it defines a name twice or defines one that a live module defines. While
all names of live and of waiting code are different, generating refuses nothing for that
reason, and leaves them different.

Owns: names that differ, that working with code keeps them so, and which names the code
of a transaction can have.

Does not own: why the names of new code are new.
-/

namespace IncrementalC

/-- The names that waiting or live code defines. -/
def CodeState.names : CodeState → List String
  | .pending unit => unit.definedNames
  | .emitted _ _ symbols _ => symbols
  | .excluded | .failed _ => []

/-- The names that code is still to define. -/
def CodeState.waitingNames : CodeState → List String
  | .pending unit => unit.definedNames
  | .emitted _ _ _ _ | .excluded | .failed _ => []

theorem CodeState.mem_names_of_waiting {state : CodeState} {name : String}
    (waits : name ∈ state.waitingNames) : name ∈ state.names := by
  cases state with
  | pending unit => exact waits
  | emitted module initialized symbols references => exact absurd waits List.not_mem_nil
  | excluded => exact absurd waits List.not_mem_nil
  | failed error => exact absurd waits List.not_mem_nil

namespace CodeStates

/-- The names that waiting code is still to define. -/
def waitingNames (states : CodeStates) : List String :=
  states.flatMap fun entry => entry.2.waitingNames

theorem waitingNames_cons (entry : TransactionId × CodeState) (states : CodeStates) :
    waitingNames (entry :: states) = entry.2.waitingNames ++ waitingNames states :=
  List.flatMap_cons

/-- Every transaction has code in `after` for names only that it had code for in `before`. -/
def Inherits (before after : CodeStates) : Prop :=
  ∀ entry ∈ after, ∃ old ∈ before, old.1 = entry.1 ∧ ∀ name ∈ entry.2.names, name ∈ old.2.names

variable {before between after states : CodeStates}

theorem Inherits.refl (states : CodeStates) : Inherits states states :=
  fun entry member => ⟨entry, member, rfl, fun _ => id⟩

theorem Inherits.trans (first : Inherits before between) (second : Inherits between after) :
    Inherits before after := by
  intro entry member
  obtain ⟨middle, middleMember, sameMiddle, fromMiddle⟩ := second entry member
  obtain ⟨old, oldMember, sameOld, fromOld⟩ := first middle middleMember
  exact ⟨old, oldMember, sameOld.trans sameMiddle,
    fun name has => fromOld name (fromMiddle name has)⟩

theorem Inherits.cons {old new : TransactionId × CodeState} (same : old.1 = new.1)
    (names : ∀ name ∈ new.2.names, name ∈ old.2.names) (rest : Inherits before after) :
    Inherits (old :: before) (new :: after) := by
  intro entry member
  rcases List.mem_cons.mp member with rfl | later
  · exact ⟨old, List.mem_cons_self, same, names⟩
  · obtain ⟨earlier, earlierMember, facts⟩ := rest entry later
    exact ⟨earlier, List.mem_cons_of_mem old earlierMember, facts⟩

theorem waitingNames_placeState {id : TransactionId} {state : CodeState}
    (absent : ∀ entry ∈ states, entry.1 ≠ id) :
    (waitingNames (Engine.placeState id state states)).Perm
      (state.waitingNames ++ waitingNames states) := by
  unfold waitingNames
  induction states with
  | nil => exact .refl _
  | cons head tail inductionHypothesis =>
    have rest := inductionHypothesis fun entry member =>
      absent entry (List.mem_cons_of_mem _ member)
    rw [placeState_cons (absent head List.mem_cons_self)]
    split
    · rw [List.flatMap_cons, List.flatMap_cons]
      exact (rest.append_left _).trans (List.perm_append_comm_assoc _ _ _)
    · exact .refl _

theorem waitingNames_markInitialized (id : TransactionId) (states : CodeStates) :
    waitingNames (Engine.markInitialized id states) = waitingNames states := by
  have same : ∀ entry : TransactionId × CodeState,
      (marked id entry).2.waitingNames = entry.2.waitingNames := by
    rintro ⟨other, state⟩
    cases state with
    | emitted module initialized symbols references =>
      unfold marked
      dsimp only
      split <;> rfl
    | pending unit => rfl
    | excluded => rfl
    | failed error => rfl
  unfold waitingNames
  rw [markInitialized_eq, List.flatMap_map]
  simp only [same]

theorem inherits_markInitialized (id : TransactionId) (states : CodeStates) :
    Inherits states (Engine.markInitialized id states) := by
  intro entry member
  rw [markInitialized_eq] at member
  obtain ⟨⟨other, state⟩, old, rfl⟩ := List.mem_map.mp member
  refine ⟨_, old, (marked_fst id _).symm, ?_⟩
  cases state with
  | emitted module initialized symbols references =>
    unfold marked
    dsimp only
    split <;> exact fun _ known => known
  | pending unit => exact fun _ known => known
  | excluded => exact fun _ known => known
  | failed error => exact fun _ known => known

end CodeStates

/-! ## Generating -/

namespace Machine

/-- Nothing is refused for its names if they differ from each other and from those of live
modules. -/
theorem emit_of_nodup {machine : Machine} {unit : CodeUnit}
    (distinct : (machine.definedNames ++ unit.definedNames).Nodup) (name : String) :
    machine.emit unit ≠ .error (.duplicateSymbol name) := by
  obtain ⟨-, own, apart⟩ := List.nodup_append.mp distinct
  have unique : machine.firstDuplicate? [] unit.definedNames = none :=
    firstDuplicate?_of_nodup own fun name member defined => apart name defined name member rfl
  unfold emit objection?
  rw [unique]
  dsimp only
  cases unit.functions.find? fun function => machine.limits.frameSlots < function.frameSize with
  | none => nofun
  | some function => nofun

end Machine

/-- No name is defined twice by live and waiting code, and no code was refused for that. -/
structure NoClash (machine : Machine) (states : CodeStates) : Prop where
  distinct : (machine.definedNames ++ CodeStates.waitingNames states).Nodup
  accepted : ∀ id name, (id, CodeState.failed (.duplicateSymbol name)) ∉ states

namespace NoClash

variable {machine : Machine} {states : CodeStates} {entry : TransactionId × CodeState}

theorem tail (clashless : NoClash machine (entry :: states)) : NoClash machine states where
  distinct := by
    have distinct := clashless.distinct
    rw [CodeStates.waitingNames_cons] at distinct
    exact distinct.sublist ((List.sublist_append_right _ _).append_left _)
  accepted id name member := clashless.accepted id name (List.mem_cons_of_mem entry member)

/-- A state of code that does not wait adds no names. -/
theorem cons (clashless : NoClash machine states) (settled : entry.2.waitingNames = [])
    (fine : ∀ name, entry.2 ≠ .failed (.duplicateSymbol name)) :
    NoClash machine (entry :: states) where
  distinct := by
    rw [CodeStates.waitingNames_cons, settled, List.nil_append]
    exact clashless.distinct
  accepted id name member := by
    rcases List.mem_cons.mp member with rfl | later
    · exact fine name rfl
    · exact clashless.accepted id name later

/-- Marking changes no names and refuses nothing. -/
theorem markInitialized (clashless : NoClash machine states) (id : TransactionId) :
    NoClash machine (Engine.markInitialized id states) where
  distinct := by
    rw [CodeStates.waitingNames_markInitialized]
    exact clashless.distinct
  accepted other name member := by
    rw [CodeStates.markInitialized_eq] at member
    obtain ⟨⟨same, state⟩, old, marks⟩ := List.mem_map.mp member
    cases state with
    | emitted module initialized symbols references =>
      unfold CodeStates.marked at marks
      dsimp only at marks
      split at marks <;> cases marks
    | pending unit => cases marks
    | excluded => cases marks
    | failed error =>
      cases marks
      exact clashless.accepted _ name old

/-- While code runs, the same modules stay live. -/
theorem continued {after : Machine} (clashless : NoClash machine states)
    (continues : machine.Continues after) : NoClash after states where
  distinct := by
    have names : after.definedNames = machine.definedNames :=
      congrArg (List.flatMap _) continues.modules
    rw [names]
    exact clashless.distinct
  accepted := clashless.accepted

end NoClash

namespace Engine

variable {engine before after : Engine} {machine : Machine} {unit : CodeUnit}
  {states : CodeStates}

theorem definedNames_emitUnit (machine : Machine) (unit : CodeUnit) :
    (emitUnit machine unit).1.definedNames = machine.definedNames ++ unit.definedNames ∨
      (emitUnit machine unit).1.definedNames = machine.definedNames := by
  unfold emitUnit
  cases emitted : machine.emit unit with
  | error error => exact .inr rfl
  | ok generated =>
    obtain ⟨id, grown⟩ := generated
    obtain ⟨-, -, rfl⟩ := Machine.emit_eq emitted
    simp only [Machine.definedNames, List.flatMap_append, List.flatMap_cons, List.flatMap_nil,
      List.append_nil, true_or]

/-- Whatever becomes of waiting code, it has no names to define any more, and none but its own. -/
theorem names_emitUnit (wellFormed : machine.WellFormed) (unit : CodeUnit) :
    (emitUnit machine unit).2.waitingNames = [] ∧
      ∀ name ∈ (emitUnit machine unit).2.names, name ∈ unit.definedNames := by
  unfold emitUnit
  cases emitted : machine.emit unit with
  | error error => exact ⟨rfl, fun _ absent => absurd absent List.not_mem_nil⟩
  | ok generated =>
    obtain ⟨id, grown⟩ := generated
    have grownWellFormed := wellFormed.emit emitted
    obtain ⟨-, -, rfl⟩ := Machine.emit_eq emitted
    refine ⟨rfl, fun name member => ?_⟩
    have live : (⟨id, unit⟩ : Module) ∈ machine.modules ++ [⟨id, unit⟩] :=
      List.mem_append_right _ (List.mem_singleton_self _)
    have installed := grownWellFormed.symbolsOf_eq live
    rw [← installed]
    exact member

/-- Waiting code whose names clash with none is not refused for its names, and leaves the rest
without clashes. -/
theorem emitUnit_noClash {id : TransactionId}
    (clashless : NoClash machine ((id, .pending unit) :: states)) :
    NoClash (emitUnit machine unit).1 states ∧
      ∀ name, (emitUnit machine unit).2 ≠ .failed (.duplicateSymbol name) := by
  have distinct := clashless.distinct
  rw [CodeStates.waitingNames_cons, ← List.append_assoc] at distinct
  refine ⟨⟨?_, clashless.tail.accepted⟩, ?_⟩
  · rcases definedNames_emitUnit machine unit with all | same
    · rw [all]
      exact distinct
    · rw [same]
      exact clashless.tail.distinct
  · intro name refused
    have fine := Machine.emit_of_nodup (List.nodup_append.mp distinct).1 name
    unfold emitUnit at refused
    split at refused
    · cases refused
    · next error failed =>
      obtain rfl := CodeState.failed.inj refused
      exact fine failed

theorem emitStates_noClash (clashless : NoClash machine states) (wellFormed : machine.WellFormed) :
    NoClash (emitStates machine states).1 (emitStates machine states).2 ∧
      CodeStates.Inherits states (emitStates machine states).2 := by
  induction states generalizing machine with
  | nil => exact ⟨clashless, .refl _⟩
  | cons entry rest inductionHypothesis =>
    obtain ⟨id, state⟩ := entry
    have fine : ∀ name, state ≠ .failed (.duplicateSymbol name) := fun name same =>
      clashless.accepted id name (same ▸ List.mem_cons_self)
    -- Code that does not wait is passed over.
    have passed : state.waitingNames = [] →
        NoClash (emitStates machine rest).1 ((id, state) :: (emitStates machine rest).2) ∧
          CodeStates.Inherits ((id, state) :: rest)
            ((id, state) :: (emitStates machine rest).2) := by
      intro settled
      obtain ⟨final, inherits⟩ := inductionHypothesis clashless.tail wellFormed
      exact ⟨final.cons settled fine, inherits.cons rfl fun _ known => known⟩
    cases state with
    | emitted module initialized symbols references => exact passed rfl
    | excluded => exact passed rfl
    | failed error => exact passed rfl
    | pending unit =>
      obtain ⟨grown, accepted⟩ := emitUnit_noClash clashless
      have grownWellFormed := (emitUnit_descends machine unit).wellFormed wellFormed
      obtain ⟨settled, own⟩ := names_emitUnit wellFormed unit
      obtain ⟨final, inherits⟩ := inductionHypothesis grown grownWellFormed
      exact ⟨final.cons settled accepted, inherits.cons rfl own⟩

/-- New code has no names but its own. -/
theorem mem_states_track {transaction : Transaction} {entry : TransactionId × CodeState}
    (member : entry ∈ (engine.track transaction unit).states) :
    entry ∈ engine.states ∨
      entry.1 = transaction.id ∧ ∀ name ∈ entry.2.names, name ∈ unit.definedNames := by
  rcases CodeStates.mem_placeState member with rfl | old
  · refine .inr ⟨rfl, ?_⟩
    cases transaction.options.generatesCode with
    | true => exact fun _ known => known
    | false => exact fun _ absent => absurd absent List.not_mem_nil
  · exact .inl old

/-! ## At all times -/

/-- At no time were names defined twice, and no code was ever refused for that. -/
structure Clashless (engine : Engine) : Prop where
  wellFormed : engine.machine.WellFormed
  now : NoClash engine.machine engine.states
  noted : ∀ entry ∈ engine.journal, NoClash entry.machine entry.states

theorem clashless_new (limits : Limits) (source : LibrarySource) :
    (new limits source).Clashless where
  wellFormed := Machine.wellFormed_new limits
  now := ⟨List.nodup_nil, fun _ _ => List.not_mem_nil⟩
  noted _ member := absurd member List.not_mem_nil

namespace Clashless

/-- Noting a change is noting what it has led to. -/
theorem changed (clashless : before.Clashless) (activity : Activity)
    (journal : after.journal = after.moment activity :: before.journal)
    (wellFormed : after.machine.WellFormed) (now : NoClash after.machine after.states) :
    after.Clashless where
  wellFormed := wellFormed
  now := now
  noted entry member := by
    rw [journal] at member
    rcases List.mem_cons.mp member with rfl | older
    · exact now
    · exact clashless.noted entry older

theorem works (clashless : before.Clashless) (works : before.Works after) :
    after.Clashless ∧ CodeStates.Inherits before.states after.states := by
  cases works with
  | generated =>
    obtain ⟨now, inherits⟩ := emitStates_noClash clashless.now clashless.wellFormed
    have wellFormed := (emitStates_descends before.machine before.states).wellFormed
      clashless.wellFormed
    exact ⟨clashless.changed .generated rfl wellFormed now, inherits⟩
  | marked id =>
    exact ⟨clashless.changed (.initialized id) rfl clashless.wellFormed
      (clashless.now.markInitialized id), CodeStates.inherits_markInitialized id before.states⟩
  | ran activity machine states journal =>
    rw [states]
    refine ⟨⟨machine.wellFormed clashless.wellFormed, ?_, ?_⟩, .refl _⟩
    · rw [states]
      exact clashless.now.continued machine
    · intro entry member
      rw [journal] at member
      rcases List.mem_cons.mp member with rfl | older
      · exact clashless.now
      · exact clashless.noted entry older
  | quiet machine states journal =>
    rw [states]
    refine ⟨⟨machine.wellFormed clashless.wellFormed, ?_, ?_⟩, .refl _⟩
    · rw [states]
      exact clashless.now.continued machine
    · rw [journal]
      exact clashless.noted

theorem worked (clashless : before.Clashless)
    (works : Relation.ReflTransGen Works before after) :
    after.Clashless ∧ CodeStates.Inherits before.states after.states := by
  induction works with
  | refl => exact ⟨clashless, .refl _⟩
  | tail earlier last inductionHypothesis =>
    obtain ⟨between, inherits⟩ := inductionHypothesis
    obtain ⟨next, further⟩ := between.works last
    exact ⟨next, inherits.trans further⟩

/-- Code that is tracked has no name that live or waiting code defines. -/
theorem track (clashless : engine.Clashless) {transaction : Transaction} {unit : CodeUnit}
    (absent : ∀ entry ∈ engine.states, entry.1 ≠ transaction.id)
    (distinct : unit.definedNames.Nodup)
    (free : ∀ name ∈ unit.definedNames,
      name ∉ engine.machine.definedNames ∧ name ∉ CodeStates.waitingNames engine.states) :
    (engine.track transaction unit).Clashless := by
  refine clashless.changed (.tracked transaction.id) rfl clashless.wellFormed ?_
  have placed : ∀ state : CodeState, state.waitingNames.Nodup →
      (∀ name ∈ state.waitingNames, name ∈ unit.definedNames) →
      (∀ name, state ≠ .failed (.duplicateSymbol name)) →
      NoClash engine.machine (placeState transaction.id state engine.states) := by
    intro state own known fine
    have old := List.nodup_append.mp clashless.now.distinct
    refine ⟨?_, ?_⟩
    · rw [((CodeStates.waitingNames_placeState absent).append_left _).nodup_iff]
      refine List.nodup_append.mpr ⟨old.1, List.nodup_append.mpr ⟨own, old.2.1, ?_⟩, ?_⟩
      · rintro name new _ waits rfl
        exact (free name (known name new)).2 waits
      · rintro name defined _ other rfl
        rcases List.mem_append.mp other with new | waits
        · exact (free name (known name new)).1 defined
        · exact old.2.2 name defined name waits rfl
    · intro other name member
      rcases CodeStates.mem_placeState member with same | older
      · exact fine name (congrArg Prod.snd same).symm
      · exact clashless.now.accepted other name older
  unfold Engine.track
  cases transaction.options.generatesCode with
  | true => exact placed (.pending unit) distinct (fun _ => id) fun _ => nofun
  | false =>
    exact placed .excluded List.nodup_nil (fun _ absent => absurd absent List.not_mem_nil)
      fun _ => nofun

theorem dropCode (clashless : engine.Clashless) (id : TransactionId) :
    (engine.dropCode id).Clashless := by
  refine clashless.changed (.dropped id) rfl
    ((dropCode_descends engine id).wellFormed clashless.wellFormed) ?_
  have fewer : (engine.states.filter fun entry => entry.1 ≠ id).Sublist engine.states :=
    List.filter_sublist
  have names : (engine.dropCode id).machine.definedNames.Sublist engine.machine.definedNames := by
    unfold Engine.dropCode
    dsimp only
    split
    · change (Machine.definedNames (Machine.unload _ _)).Sublist _
      unfold Machine.definedNames
      rw [Machine.unload_modules]
      exact List.filter_sublist.flatMap _
    · exact .refl _
  exact ⟨clashless.now.distinct.sublist (names.append (fewer.flatMap _)),
    fun other name member => clashless.now.accepted other name (fewer.subset member)⟩

end Clashless

end Engine

end IncrementalC
