import IncrementalC.Proofs.Engine.Journal

/-!
Contract: engines keep journals in order.

Every change of the states of code is noted, so that the journal tells the states. A
transaction whose initializers were run counts as initialized as long as its code
stays, and code that is gone is never tracked again.

Owns: engines with a journal in order, and that the single steps keep it in order.

Does not own: the order in which the steps are taken.
-/

namespace IncrementalC.Engine

/-- The journal is in order and tells the states of the engine. -/
structure Recorded (engine : Engine) : Prop where
  wellFormed : engine.WellFormed
  inOrder : InOrder engine.journal
  latest : latestStates engine.journal = engine.states
  tracked : ∀ id, engine.state? id ≠ none → Tracked engine.journal id
  ran : ∀ id, initializerRuns id engine.journal ≠ [] → Tracked engine.journal id ∧
    ∀ state, engine.state? id = some state →
      ∃ module symbols references, state = .emitted module true symbols references

/-- `after` has come from an engine with a journal in order, tracks nothing new, and has
dropped nothing. -/
structure Succeeds (before after : Engine) : Prop where
  recorded : after.Recorded
  tracked : ∀ id, Tracked after.journal id → Tracked before.journal id
  known : ∀ id, after.state? id = none ↔ before.state? id = none

/-- `after` has come from an engine with a journal in order, tracks nothing new, and has
dropped the code of one transaction. -/
structure Drops (id : TransactionId) (before after : Engine) : Prop where
  recorded : after.Recorded
  tracked : ∀ other, Tracked after.journal other → Tracked before.journal other
  known : ∀ other, after.state? other = none ↔ other = id ∨ before.state? other = none

variable {engine before between after : Engine}

theorem recorded_new (limits : Limits) (source : LibrarySource) : (new limits source).Recorded where
  wellFormed := wellFormed_new limits source
  inOrder := .nil
  latest := rfl
  tracked _ known := absurd rfl known
  ran _ runs := absurd rfl runs

theorem Recorded.succeeds (recorded : engine.Recorded) : engine.Succeeds engine :=
  ⟨recorded, fun _ => id, fun _ => .rfl⟩

theorem Succeeds.trans (first : before.Succeeds between) (second : between.Succeeds after) :
    before.Succeeds after :=
  ⟨second.recorded, fun id tracked => first.tracked id (second.tracked id tracked),
    fun id => (second.known id).trans (first.known id)⟩

theorem Succeeds.drops {id : TransactionId} (first : before.Succeeds between)
    (second : Drops id between after) : Drops id before after :=
  ⟨second.recorded, fun other tracked => first.tracked other (second.tracked other tracked),
    fun other => (second.known other).trans (or_congr_right (first.known other))⟩

/-! ## Steps that are not noted -/

theorem Recorded.unnoted (recorded : before.Recorded) (wellFormed : after.WellFormed)
    (states : after.states = before.states) (journal : after.journal = before.journal) :
    before.Succeeds after where
  recorded :=
    { wellFormed
      inOrder := journal ▸ recorded.inOrder
      latest := by
        rw [journal, states]
        exact recorded.latest
      tracked := by
        intro id known
        rw [journal]
        rw [state?_eq_find, states] at known
        exact recorded.tracked id known
      ran := by
        intro id runs
        rw [journal] at runs ⊢
        rw [state?_eq_find, states]
        exact recorded.ran id runs }
  tracked id known := by
    rw [← journal]
    exact known
  known id := by rw [state?_eq_find, state?_eq_find, states]

/-- After a search that missed nothing, everything that is reached is provided. -/
theorem provided_of_missingNames (engine : Engine) (roots : List Address)
    (complete : (engine.missingNames roots).1 = []) (name : String)
    (reached : (engine.missingNames roots).2.machine.Reaches roots name) :
    Provides (engine.missingNames roots).2.machine (engine.missingNames roots).2.host.resolver
      name := by
  obtain ⟨continued, -⟩ := engine.missingNames_continues roots
  rw [continued.machine.reaches_iff] at reached
  rw [continued.provides_iff]
  by_contra lacks
  have member := (engine.mem_missingNames_iff roots name).mpr ⟨reached, lacks⟩
  rw [complete] at member
  exact List.not_mem_nil member

/-- A search leaves no trace in the journal. -/
theorem Recorded.missingNames (recorded : engine.Recorded) (roots : List Address) :
    engine.Succeeds (engine.missingNames roots).2 := by
  obtain ⟨continued, -, journal⟩ := engine.missingNames_continues roots
  exact recorded.unnoted (continued.wellFormed recorded.wellFormed) continued.states journal

/-! ## Steps that are noted -/

theorem tracked_cons_iff {entry : JournalEntry} {older : List JournalEntry} {id : TransactionId} :
    Tracked (entry :: older) id ↔ entry.activity = .tracked id ∨ Tracked older id := by
  unfold Tracked
  simp

/-- A move keeps code initialized, unless it drops it. -/
theorem eq_of_move_of_initialized {old new : Option CodeState} (move : CodeMove old new)
    {module : ModuleId} {symbols references : List String}
    (initialized : old = some (.emitted module true symbols references)) :
    new = none ∨ new = old := by
  cases move with
  | stays => exact .inr rfl
  | dropped => exact .inl rfl
  | waits => cases initialized
  | excluded => cases initialized
  | emitted => cases initialized
  | failed => cases initialized
  | initialized => cases initialized

/-- What is to be shown of a step that is noted. -/
structure Noted (before after : Engine) (entry : JournalEntry) : Prop where
  wellFormed : after.WellFormed
  journal : after.journal = entry :: before.journal
  states : entry.states = after.states
  code : CodeStands entry.machine entry.states
  moves : ∀ id, CodeMove (before.state? id) (after.state? id)
  appears : ∀ id, before.state? id = none → after.state? id ≠ none →
    entry.activity = .tracked id
  initializes : ∀ id module symbols references,
    before.state? id = some (.emitted module false symbols references) →
    after.state? id = some (.emitted module true symbols references) →
    entry.activity = .initialized id
  numbered : ∀ id, entry.activity = .tracked id →
    ∀ other, Tracked before.journal other → other.number < id.number
  waiting : ∀ name owner origin address result,
    entry.activity = .ran (.entry name) owner origin address result → entry.WaitingBlocked
  justified : entry.Justified before.journal
  runs : ∀ id run, entry.initializerRun? id = some run →
    ∃ module symbols references, after.state? id = some (.emitted module true symbols references)

variable {entry : JournalEntry}

theorem Noted.tracked (noted : before.Noted after entry) (recorded : before.Recorded)
    {id : TransactionId} (known : after.state? id ≠ none) : Tracked after.journal id := by
  rw [noted.journal, tracked_cons_iff]
  by_cases old : before.state? id = none
  · exact .inl (noted.appears id old known)
  · exact .inr (recorded.tracked id old)

/-- Code that was dropped does not come back. -/
theorem Noted.state?_eq_none (noted : before.Noted after entry) {id : TransactionId}
    (tracked : Tracked before.journal id) (dropped : before.state? id = none) :
    after.state? id = none := by
  by_contra known
  have tracks := noted.appears id dropped known
  have justified := noted.justified
  unfold JournalEntry.Justified at justified
  rw [tracks] at justified
  exact justified tracked

theorem Noted.follows (noted : before.Noted after entry) (recorded : before.Recorded) :
    entry.Follows before.journal := by
  have latest : ∀ id, CodeStates.find (latestStates before.journal) id = before.state? id := by
    intro id
    rw [recorded.latest, state?_eq_find]
  have own : ∀ id, entry.state? id = after.state? id := by
    intro id
    rw [JournalEntry.state?, noted.states, state?_eq_find]
  refine
    { noted.code with
      moves := ?_
      appears := ?_
      initializes := ?_
      numbered := noted.numbered
      waiting := noted.waiting
      justified := noted.justified }
  · intro id
    rw [latest, own]
    exact noted.moves id
  · intro id
    rw [latest, own]
    exact noted.appears id
  · intro id module symbols references
    rw [latest, own]
    exact noted.initializes id module symbols references

theorem Recorded.noted (recorded : before.Recorded) (entry : JournalEntry)
    (noted : before.Noted after entry) : after.Recorded where
  wellFormed := noted.wellFormed
  inOrder := by
    rw [noted.journal]
    exact .cons recorded.inOrder (noted.follows recorded)
  latest := by
    rw [noted.journal]
    exact noted.states
  tracked _ known := noted.tracked recorded known
  ran := by
    intro id runs
    cases own : entry.initializerRun? id with
    | some run =>
      obtain ⟨module, symbols, references, state⟩ := noted.runs id run own
      refine ⟨noted.tracked recorded (by rw [state]; exact Option.some_ne_none _), ?_⟩
      intro other same
      rw [state] at same
      exact ⟨module, symbols, references, (Option.some.inj same).symm⟩
    | none =>
      have olderRuns : initializerRuns id before.journal ≠ [] := by
        rw [noted.journal, initializerRuns_cons, own] at runs
        simpa using runs
      obtain ⟨tracked, initialized⟩ := recorded.ran id olderRuns
      refine ⟨?_, ?_⟩
      · rw [noted.journal, tracked_cons_iff]
        exact .inr tracked
      · intro state same
        cases old : before.state? id with
        | none =>
          rw [noted.state?_eq_none tracked old] at same
          cases same
        | some earlier =>
          obtain ⟨module, symbols, references, rfl⟩ := initialized earlier old
          rcases eq_of_move_of_initialized (noted.moves id) old with gone | kept
          · rw [gone] at same
            cases same
          · rw [kept, old] at same
            exact ⟨module, symbols, references, (Option.some.inj same).symm⟩

theorem Noted.tracksNothing (noted : before.Noted after entry)
    (nothing : ∀ id, entry.activity ≠ .tracked id) {id : TransactionId}
    (known : Tracked after.journal id) : Tracked before.journal id := by
  rw [noted.journal, tracked_cons_iff] at known
  exact known.resolve_left (nothing id)

theorem Recorded.succeeds_noted (recorded : before.Recorded) (entry : JournalEntry)
    (noted : before.Noted after entry) (nothing : ∀ id, entry.activity ≠ .tracked id)
    (known : ∀ id, after.state? id = none ↔ before.state? id = none) :
    before.Succeeds after where
  recorded := recorded.noted entry noted
  tracked _ := noted.tracksNothing nothing
  known

/-! ### Tracking -/

theorem Recorded.untracked (recorded : engine.Recorded) {id : TransactionId}
    (new : ¬ Tracked engine.journal id) : engine.state? id = none := by
  by_contra known
  exact new (recorded.tracked id known)

/-- The states of transactions that were all tracked before have smaller numbers. -/
theorem Recorded.newest (recorded : engine.Recorded) {id : TransactionId}
    (newer : ∀ other, Tracked engine.journal other → other.number < id.number) :
    ∀ entry ∈ engine.states, entry.1.number < id.number := by
  intro entry member
  have found := CodeStates.find_of_mem recorded.wellFormed.states.ascending member
  exact newer entry.1 (recorded.tracked entry.1 (by rw [state?_eq_find, found]; nofun))

theorem Recorded.track (recorded : engine.Recorded) {transaction : Transaction} {unit : CodeUnit}
    (newer : ∀ other, Tracked engine.journal other → other.number < transaction.id.number)
    (lowered : unit.WellLowered) : (engine.track transaction unit).Recorded := by
  have new : ¬ Tracked engine.journal transaction.id :=
    fun tracked => Nat.lt_irrefl _ (newer _ tracked)
  have untracked := recorded.untracked new
  have wellFormed := recorded.wellFormed.track (recorded.newest newer) lowered
  refine recorded.noted ⟨.tracked transaction.id, _, _, _⟩
    { wellFormed
      journal := rfl
      states := rfl
      code := wellFormed.toCodeStands
      moves := track_moves unit untracked
      appears := ?_
      initializes := ?_
      numbered := ?_
      waiting := nofun
      justified := new
      runs := nofun }
  · intro id old known
    by_cases same : transaction.id = id
    · rw [same]
    · rw [state?_track_of_ne unit untracked same] at known
      exact absurd old known
  · intro id module symbols references waits initialized
    have differs : transaction.id ≠ id := by
      rintro rfl
      rw [untracked] at waits
      cases waits
    rw [state?_track_of_ne unit untracked differs, waits] at initialized
    cases initialized
  · rintro id ⟨⟩
    exact newer

theorem tracked_track {transaction : Transaction} {unit : CodeUnit} {id : TransactionId} :
    Tracked (engine.track transaction unit).journal id ↔
      transaction.id = id ∨ Tracked engine.journal id := by
  show Tracked (_ :: engine.journal) id ↔ _
  rw [tracked_cons_iff]
  simp [moment]

/-! ### Generating and dropping -/

theorem Recorded.emitPending (recorded : engine.Recorded) : engine.Succeeds engine.emitPending := by
  have wellFormed := recorded.wellFormed.emitPending
  have known : ∀ id, engine.emitPending.state? id = none ↔ engine.state? id = none :=
    fun _ => state?_emitPending_eq_none_iff recorded.wellFormed
  refine recorded.succeeds_noted ⟨.generated, _, _, _⟩
    { wellFormed
      journal := rfl
      states := rfl
      code := wellFormed.toCodeStands
      moves := emitPending_moves recorded.wellFormed
      appears := fun id old now => absurd ((known id).mpr old) now
      initializes := ?_
      numbered := nofun
      waiting := nofun
      justified := trivial
      runs := nofun } nofun known
  intro id module symbols references waits initialized
  have stays := state?_emitPending recorded.wellFormed waits fun _ => nofun
  rw [stays] at initialized
  cases initialized

theorem Recorded.dropCode (recorded : engine.Recorded) (id : TransactionId) :
    Drops id engine (engine.dropCode id) := by
  have wellFormed := recorded.wellFormed.dropCode id
  have noted : engine.Noted (engine.dropCode id) ((engine.dropCode id).moment (.dropped id)) :=
    { wellFormed
      journal := rfl
      states := rfl
      code := wellFormed.toCodeStands
      moves := dropCode_moves engine id
      appears := ?_
      initializes := ?_
      numbered := nofun
      waiting := nofun
      justified := trivial
      runs := nofun }
  · refine ⟨recorded.noted _ noted, fun _ => noted.tracksNothing nofun, ?_⟩
    intro other
    rw [state?_dropCode]
    by_cases same : other = id <;> simp [same]
  · intro other old known
    refine absurd ?_ known
    rw [state?_dropCode, old, ite_self]
  · intro other module symbols references waits initialized
    rw [state?_dropCode, waits] at initialized
    split at initialized <;> cases initialized

/-! ### Marking -/

theorem Recorded.mark (recorded : engine.Recorded) {id : TransactionId} {module : ModuleId}
    {symbols references : List String}
    (waits : engine.state? id = some (.emitted module false symbols references))
    (settled : ∀ other unit, engine.state? other ≠ some (.pending unit))
    (uses : engine.UsesNoneWaiting id)
    (earlier : (engine.mark id |>.moment (.initialized id)).EarlierSettled id) :
    engine.Succeeds (engine.mark id) := by
  have wellFormed := recorded.wellFormed.mark settled uses
  have known : ∀ other, (engine.mark id).state? other = none ↔ engine.state? other = none := by
    intro other
    rw [state?_mark, Option.map_eq_none_iff]
  refine recorded.succeeds_noted ((engine.mark id).moment (.initialized id))
    { wellFormed
      journal := rfl
      states := rfl
      code := wellFormed.toCodeStands
      moves := mark_moves waits
      appears := fun other old now => absurd ((known other).mpr old) now
      initializes := ?_
      numbered := nofun
      waiting := nofun
      justified := earlier
      runs := nofun } nofun known
  intro other otherModule otherSymbols otherReferences otherWaits initialized
  by_cases same : other = id
  · rw [same]
    rfl
  · rw [state?_mark_of_ne engine same, otherWaits] at initialized
    cases initialized

/-! ### Running -/

/-- A run that is justified. -/
theorem Recorded.runFor (recorded : engine.Recorded) {purpose : Purpose} {owner : AtExitOwner}
    {origin : Option DeclarationId} {address : Address} {arguments : List Value}
    {result : Except Fault Value}
    (ran : engine.runFor purpose owner origin address arguments = .ok (result, after))
    (waiting : ∀ name, purpose = .entry name →
      (engine.moment (.ran purpose owner origin address result)).WaitingBlocked)
    (justified : (engine.moment (.ran purpose owner origin address result)).Justified
      engine.journal) : engine.Succeeds after := by
  obtain ⟨continued, journal⟩ := runFor_eq ran
  refine recorded.succeeds_noted _
    { wellFormed := continued.wellFormed recorded.wellFormed
      journal
      states := continued.states.symm
      code := recorded.wellFormed.toCodeStands
      moves := ?_
      appears := ?_
      initializes := ?_
      numbered := nofun
      waiting := ?_
      justified
      runs := ?_ } nofun fun id => by rw [continued.state?]
  · intro id
    rw [continued.state?]
    exact .stays _
  · intro id old known
    rw [continued.state?] at known
    exact absurd old known
  · intro id module symbols references waits initialized
    rw [continued.state?, waits] at initialized
    cases initialized
  · rintro name _ _ _ _ ⟨⟩
    exact waiting name rfl
  · intro id run own
    unfold JournalEntry.initializerRun? at own
    split at own
    · next owner declaration address result activity =>
      split at own
      · next same =>
        unfold JournalEntry.Justified at justified
        rw [activity] at justified
        obtain ⟨other, _, symbols, references, sameOwner, -, state, -⟩ := justified
        obtain rfl := AtExitOwner.transaction.inj (same.symm.trans sameOwner)
        refine ⟨address.module, symbols, references, ?_⟩
        rw [continued.state?]
        exact state
      · cases own
    · cases own

end IncrementalC.Engine
