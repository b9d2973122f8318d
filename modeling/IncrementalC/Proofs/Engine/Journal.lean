import IncrementalC.Proofs.Engine.Binding
import IncrementalC.Proofs.Engine.WellFormed

/-!
Contract: what a journal in order says.

An entry is justified by the older ones: code is tracked once, initializers run one
after the other from the first, entries run once their transaction counts as
initialized, and a transaction is initialized only when the earlier ones are, or are
blocked.

Owns: blocked transactions, justified entries, journals in order, and what follows for
a whole journal.

Does not own: why the journals of engines are in order.
-/

namespace IncrementalC

/-! ## Blocked transactions -/

/-- The transaction waits for initialization. Either its initializers reach a name that
nothing provides, or its code uses a name of an earlier transaction that is blocked. -/
inductive Blocked (machine : Machine) (states : CodeStates) (resolver : Resolver) :
    TransactionId → Prop where
  | lacking {id : TransactionId} {module : ModuleId} {symbols references : List String}
      {name : String}
      (waits : CodeStates.find states id = some (.emitted module false symbols references))
      (reached : machine.Reaches
        ((machine.initializersOf module).map Machine.InitializerEntry.address) name)
      (lacks : ¬ Provides machine resolver name) : Blocked machine states resolver id
  | behind {id other : TransactionId} {module otherModule : ModuleId}
      {symbols references otherSymbols otherReferences : List String} {name : String}
      (waits : CodeStates.find states id = some (.emitted module false symbols references))
      (earlier : other.number < id.number)
      (blocked : Blocked machine states resolver other)
      (otherWaits : CodeStates.find states other =
        some (.emitted otherModule false otherSymbols otherReferences))
      (uses : name ∈ references) (defines : name ∈ otherSymbols) :
      Blocked machine states resolver id

theorem Machine.Continues.reaches_iff {before after : Machine}
    (continues : before.Continues after) (roots : List Address) (name : String) :
    after.Reaches roots name ↔ before.Reaches roots name := by
  constructor
  · intro reached
    induction reached with
    | uses start used => exact .uses start (continues.referencesAt _ ▸ used)
    | through _ found used inductionHypothesis =>
      exact .through inductionHypothesis (continues.resolve? _ ▸ found)
        (continues.referencesAt _ ▸ used)
  · intro reached
    induction reached with
    | uses start used => exact .uses start ((continues.referencesAt _).symm ▸ used)
    | through _ found used inductionHypothesis =>
      exact .through inductionHypothesis ((continues.resolve? _).symm ▸ found)
        ((continues.referencesAt _).symm ▸ used)

namespace Engine.Continues

variable {before after : Engine}

theorem provides_iff (continues : before.Continues after) (name : String) :
    Provides after.machine after.host.resolver name ↔
      Provides before.machine before.host.resolver name := by
  unfold Provides
  rw [continues.machine.resolve?, continues.host.resolver.native?_eq]

/-- Whether a transaction is blocked depends on the states up to its own. -/
theorem blocked (continues : before.Continues after) {states changed : CodeStates}
    {id : TransactionId} (blocked : Blocked before.machine states before.host.resolver id)
    (same : ∀ other : TransactionId, other.number ≤ id.number →
      CodeStates.find changed other = CodeStates.find states other) :
    Blocked after.machine changed after.host.resolver id := by
  induction blocked with
  | lacking waits reached lacks =>
    rw [← same _ (Nat.le_refl _)] at waits
    rw [← continues.machine.initializersOf, ← continues.machine.reaches_iff] at reached
    rw [← continues.provides_iff] at lacks
    exact .lacking waits reached lacks
  | behind waits earlier _ otherWaits uses defines inductionHypothesis =>
    rw [← same _ (Nat.le_refl _)] at waits
    rw [← same _ (Nat.le_of_lt earlier)] at otherWaits
    have stillBlocked := inductionHypothesis fun other below =>
      same other (Nat.le_trans below (Nat.le_of_lt earlier))
    exact .behind waits earlier stillBlocked otherWaits uses defines

end Engine.Continues

/-! ## Entries -/

/-- The states that the newest entry notes. -/
def latestStates : List JournalEntry → CodeStates
  | [] => []
  | entry :: _ => entry.states

/-- The code of the transaction was tracked at some time. -/
def Tracked (journal : List JournalEntry) (id : TransactionId) : Prop :=
  ∃ entry ∈ journal, entry.activity = .tracked id

/-- The transaction that is tracked. -/
def Activity.tracked? : Activity → Option TransactionId
  | .tracked id => some id
  | .generated | .initialized _ | .ran _ _ _ _ _ | .dropped _ => none

theorem Activity.eq_of_tracked? {activity : Activity} {id : TransactionId}
    (tracks : activity.tracked? = some id) : activity = .tracked id := by
  cases activity <;> cases tracks
  rfl

/-- The transactions whose code was tracked, in the order of the commits. -/
def trackedIds (journal : List JournalEntry) : List TransactionId :=
  journal.reverse.filterMap fun entry => entry.activity.tracked?

theorem trackedIds_cons (entry : JournalEntry) (older : List JournalEntry) :
    trackedIds (entry :: older) = trackedIds older ++ entry.activity.tracked?.toList := by
  unfold trackedIds
  rw [List.reverse_cons, List.filterMap_append]
  cases tracks : entry.activity.tracked? <;> simp [tracks]

theorem mem_trackedIds_iff {journal : List JournalEntry} {id : TransactionId} :
    id ∈ trackedIds journal ↔ Tracked journal id := by
  unfold trackedIds Tracked
  simp only [List.mem_filterMap, List.mem_reverse]
  constructor
  · rintro ⟨entry, member, tracks⟩
    exact ⟨entry, member, Activity.eq_of_tracked? tracks⟩
  · rintro ⟨entry, member, tracks⟩
    exact ⟨entry, member, by rw [tracks]; rfl⟩

namespace JournalEntry

/-- The state of a transaction's code at the time of the entry. -/
def state? (entry : JournalEntry) (id : TransactionId) : Option CodeState :=
  CodeStates.find entry.states id

/-- The initializer of the transaction that the entry notes a run of. -/
def initializerRun? (id : TransactionId) (entry : JournalEntry) :
    Option Machine.InitializerEntry :=
  match entry.activity with
  | .ran .initializer owner (some declaration) address _ =>
    if owner = .transaction id then some ⟨address, declaration⟩ else none
  | _ => none

end JournalEntry

/-- The initializers of a transaction that were run, in the order of the runs. -/
def initializerRuns (id : TransactionId) (journal : List JournalEntry) :
    List Machine.InitializerEntry :=
  journal.reverse.filterMap (JournalEntry.initializerRun? id)

theorem initializerRuns_cons (id : TransactionId) (entry : JournalEntry)
    (older : List JournalEntry) :
    initializerRuns id (entry :: older) =
      initializerRuns id older ++ (entry.initializerRun? id).toList := by
  unfold initializerRuns
  rw [List.reverse_cons, List.filterMap_append]
  cases run : entry.initializerRun? id with
  | none => simp [run]
  | some initializer => simp [run]

namespace JournalEntry

/-- All names that the code reaches were provided, and it failed for lack of a name only
at a use that fails. -/
structure Checked (entry : JournalEntry) (address : Address) (result : Except Fault Value) :
    Prop where
  provided : ∀ name, entry.machine.Reaches [address] name →
    Provides entry.machine entry.resolver name
  failing : ∀ missing, result = .error (.unresolved missing) →
    ∃ use, entry.machine.Makes [address] use ∧ use.FailsFor entry.machine entry.resolver missing

/-- The code of every earlier transaction counts as initialized or is blocked. -/
def EarlierSettled (entry : JournalEntry) (id : TransactionId) : Prop :=
  ∀ earlier : TransactionId, earlier.number < id.number →
    ∀ module initialized symbols references,
      entry.state? earlier = some (.emitted module initialized symbols references) →
        initialized = true ∨ Blocked entry.machine entry.states entry.resolver earlier

/-- The entry is as it should be after the older ones. -/
def Justified (entry : JournalEntry) (older : List JournalEntry) : Prop :=
  match entry.activity with
  | .tracked id => ¬ Tracked older id
  | .generated | .dropped _ => True
  | .initialized id => entry.EarlierSettled id
  | .ran .initializer owner origin address result =>
    ∃ id declaration symbols references, owner = .transaction id ∧ origin = some declaration ∧
      entry.state? id = some (.emitted address.module true symbols references) ∧
      initializerRuns id older ++ [⟨address, declaration⟩] <+:
        entry.machine.initializersOf address.module ∧
      entry.Checked address result
  | .ran (.entry name) owner _ address result =>
    ∃ id symbols references, owner = .transaction id ∧
      entry.state? id = some (.emitted address.module true symbols references) ∧
      name ∈ symbols ∧ entry.machine.resolve? name = some address ∧ entry.Checked address result
  | .ran .atExit _ _ address _ => address.kind = .function
  | .ran .request _ _ _ _ => False

/-- Every transaction that waits for initialization is blocked. -/
def WaitingBlocked (entry : JournalEntry) : Prop :=
  ∀ id module symbols references,
    entry.state? id = some (.emitted module false symbols references) →
    Blocked entry.machine entry.states entry.resolver id

/-- The entry is justified by the older ones, and since then states have moved as the
activity says. -/
structure Follows (entry : JournalEntry) (older : List JournalEntry) : Prop
    extends CodeStands entry.machine entry.states where
  moves : ∀ id, CodeMove (CodeStates.find (latestStates older) id) (entry.state? id)
  appears : ∀ id, CodeStates.find (latestStates older) id = none → entry.state? id ≠ none →
    entry.activity = .tracked id
  initializes : ∀ id module symbols references,
    CodeStates.find (latestStates older) id = some (.emitted module false symbols references) →
    entry.state? id = some (.emitted module true symbols references) →
    entry.activity = .initialized id
  numbered : ∀ id, entry.activity = .tracked id →
    ∀ other, Tracked older other → other.number < id.number
  waiting : ∀ name owner origin address result,
    entry.activity = .ran (.entry name) owner origin address result → entry.WaitingBlocked
  justified : entry.Justified older

end JournalEntry

/-- Every entry follows the older ones. -/
inductive InOrder : List JournalEntry → Prop where
  | nil : InOrder []
  | cons {entry : JournalEntry} {older : List JournalEntry} (inOrder : InOrder older)
      (follows : entry.Follows older) : InOrder (entry :: older)

/-! ## What follows for a whole journal -/

namespace InOrder

variable {journal : List JournalEntry}

theorem follows (inOrder : InOrder journal) {entry : JournalEntry}
    {newer older : List JournalEntry} (place : journal = newer ++ entry :: older) :
    entry.Follows older := by
  induction inOrder generalizing newer with
  | nil => simp at place
  | cons _ follows inductionHypothesis =>
    cases newer with
    | nil =>
      obtain ⟨rfl, rfl⟩ := List.cons.inj place
      exact follows
    | cons head tail => exact inductionHypothesis (List.cons.inj place).2

/-- Initializers of a live module stand in the order of declaration. -/
theorem ascending_initializersOf {machine : Machine} (lowered : machine.WellLowered)
    (module : ModuleId) :
    ((machine.initializersOf module).map fun entry => entry.declaration.number).Pairwise
      (· < ·) := by
  unfold Machine.initializersOf
  cases found : machine.module? module with
  | none => exact List.Pairwise.nil
  | some installed =>
    have ascending := (lowered installed (Machine.mem_of_module? found)).ascending
    simp only [List.map_map]
    have same : (installed.unit.initializers.zipIdx.map
        ((fun entry : Machine.InitializerEntry => entry.declaration.number) ∘
          fun entry => ⟨⟨module, .initializer, entry.2⟩, entry.1.declaration⟩)) =
        installed.unit.initializers.map fun entry => entry.declaration.number := by
      rw [← List.zipIdx_map_fst 0 installed.unit.initializers, List.map_map]
      simp only [List.zipIdx_map_fst]
      rfl
    rw [same]
    exact ascending

/-- The initializers of a transaction run in the order of their declarations, and none
of them twice. -/
theorem ascending_initializerRuns (inOrder : InOrder journal) (id : TransactionId) :
    ((initializerRuns id journal).map fun run => run.declaration.number).Pairwise (· < ·) := by
  induction inOrder with
  | nil => exact List.Pairwise.nil
  | @cons entry older _ follows inductionHypothesis =>
    have justified := follows.justified
    rw [initializerRuns_cons]
    unfold JournalEntry.initializerRun?
    split
    · next owner declaration address result activity =>
      split
      · next own =>
        unfold JournalEntry.Justified at justified
        rw [activity] at justified
        obtain ⟨other, _, _, _, sameOwner, sameOrigin, -, inPlace, -⟩ := justified
        obtain rfl := AtExitOwner.transaction.inj (own.symm.trans sameOwner)
        obtain rfl := Option.some.inj sameOrigin
        have ascending := ascending_initializersOf follows.lowered address.module
        exact ascending.sublist (inPlace.sublist.map _)
      · simpa using inductionHypothesis
    · simpa using inductionHypothesis

/-- Transactions are tracked in the order of their numbers, and none of them twice. -/
theorem ascending_trackedIds (inOrder : InOrder journal) :
    (trackedIds journal).Pairwise fun earlier later => earlier.number < later.number := by
  induction inOrder with
  | nil => exact .nil
  | @cons entry older _ follows inductionHypothesis =>
    rw [trackedIds_cons]
    refine List.pairwise_append.mpr ⟨inductionHypothesis, ?_, ?_⟩
    · cases entry.activity.tracked? with
      | none => exact .nil
      | some id => exact List.pairwise_singleton _ _
    · intro earlier before later now
      have tracks := Activity.eq_of_tracked? (Option.mem_toList.mp now)
      exact follows.numbered later tracks earlier (mem_trackedIds_iff.mp before)

/-- Code that has a state was tracked. -/
theorem tracked_of_state (inOrder : InOrder journal) {entry : JournalEntry}
    (member : entry ∈ journal) {id : TransactionId} (known : entry.state? id ≠ none) :
    Tracked journal id := by
  induction inOrder generalizing entry with
  | nil => exact absurd member List.not_mem_nil
  | @cons head older _ follows inductionHypothesis =>
    have later : Tracked older id → Tracked (head :: older) id := by
      rintro ⟨tracking, earlier, activity⟩
      exact ⟨tracking, List.mem_cons_of_mem head earlier, activity⟩
    rcases List.mem_cons.mp member with rfl | old
    · by_cases before : CodeStates.find (latestStates older) id = none
      · exact ⟨_, List.mem_cons_self, follows.appears id before known⟩
      · cases older with
        | nil => exact absurd rfl before
        | cons next rest => exact later (inductionHypothesis List.mem_cons_self before)
    · exact later (inductionHypothesis old known)

/-- Code that is gone does not come back. -/
theorem state_stays_gone (inOrder : InOrder journal) {entry : JournalEntry}
    {newer older : List JournalEntry} (place : journal = newer ++ entry :: older)
    {id : TransactionId} (absent : CodeStates.find (latestStates older) id = none)
    (known : entry.state? id ≠ none) {earlier : JournalEntry} (member : earlier ∈ older) :
    earlier.state? id = none := by
  have follows := inOrder.follows place
  have tracks := follows.appears id absent known
  have justified := follows.justified
  unfold JournalEntry.Justified at justified
  rw [tracks] at justified
  by_contra before
  have olderInOrder : InOrder older := by
    clear follows justified tracks absent known member before
    induction inOrder generalizing newer with
    | nil => simp at place
    | cons inOrder _ inductionHypothesis =>
      cases newer with
      | nil =>
        obtain ⟨rfl, rfl⟩ := List.cons.inj place
        exact inOrder
      | cons head tail => exact inductionHypothesis (List.cons.inj place).2
  exact justified (olderInOrder.tracked_of_state member before)

/-- From no states at all to the latest, every state moves one move at a time. -/
theorem isChain_moves (inOrder : InOrder journal) :
    (journal.map JournalEntry.states ++ [[]]).IsChain fun later earlier =>
      ∀ id, CodeMove (CodeStates.find earlier id) (CodeStates.find later id) := by
  induction inOrder with
  | nil => exact List.IsChain.singleton _
  | @cons entry older _ follows inductionHypothesis =>
    cases older with
    | nil => exact List.IsChain.cons_cons follows.moves inductionHypothesis
    | cons next rest => exact List.IsChain.cons_cons follows.moves inductionHypothesis

end InOrder

end IncrementalC
