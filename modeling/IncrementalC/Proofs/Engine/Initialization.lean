import IncrementalC.Proofs.Engine.Courses
import IncrementalC.Proofs.Engine.Recording

/-!
Contract: initializing keeps journals in order.

Waiting transactions are taken by ascending number. One that is passed over is blocked
from then on: what it lacks stays missing, and the blocked ones before it stay blocked.

Owns: running initializers, and initializing everything up to a transaction, in engines
with a journal in order.

Does not own: what runs besides initializers.
-/

namespace IncrementalC

/-! ## What stands at an address -/

namespace Machine

variable {machine : Machine}

theorem mem_initializersOf {module : ModuleId} {entry : InitializerEntry}
    (member : entry ∈ machine.initializersOf module) :
    entry.address.module = module ∧ machine.Stands machine.globals entry.address := by
  unfold initializersOf at member
  cases found : machine.module? module with
  | none =>
    rw [found] at member
    exact absurd member List.not_mem_nil
  | some installed =>
    simp only [found] at member
    obtain ⟨⟨initializer, index⟩, inside, rfl⟩ := List.mem_map.mp member
    have bound := List.snd_lt_of_mem_zipIdx inside
    rw [Nat.add_zero] at bound
    exact ⟨rfl, installed, found, bound⟩

/-- What a name denotes stands at its address. -/
theorem WellFormed.stands (wellFormed : machine.WellFormed) {name : String} {address : Address}
    (found : machine.resolve? name = some address) : machine.Stands machine.globals address := by
  obtain ⟨module, live, here⟩ := exists_of_resolve? found
  have own := Module.address?_module here
  refine ⟨module, ?_, ?_⟩
  · rw [own]
    exact wellFormed.module?_of_mem live
  · rcases Module.address?_cases here with ⟨kind, entry, at?, same⟩ | ⟨kind, function, at?, -⟩
    · have stored := wellFormed.storage found kind
      simp only [kind]
      refine ⟨entry, at?, ?_⟩
      rw [Option.isSome_iff_ne_none, Ne, GlobalStore.get?_eq_none_iff, same]
      exact fun absent => absent stored
    · simp only [kind]
      exact (List.getElem?_eq_some_iff.mp at?).1

end Machine

namespace Engine

variable {engine before between after : Engine}

/-- A run of what stands at an address, all of whose names are provided, is checked. -/
theorem checked_of_provided (wellFormed : engine.machine.WellFormed) {purpose : Purpose}
    {owner : AtExitOwner} {origin : Option DeclarationId} {address : Address}
    {arguments : List Value} {result : Except Fault Value}
    (stands : engine.machine.Stands engine.machine.globals address)
    (provided : ∀ name, engine.machine.Reaches [address] name →
      Provides engine.machine engine.host.resolver name)
    (ran : engine.runFor purpose owner origin address arguments = .ok (result, after)) :
    (engine.moment (.ran purpose owner origin address result)).Checked address result := by
  refine ⟨provided, ?_⟩
  rintro missing rfl
  exact runFor_unresolved wellFormed stands ran

/-! ## Initializers -/

/-- Running the first of the initializers that are left. -/
theorem runInitializer_succeeds {id : TransactionId} {module : ModuleId}
    {symbols references : List String} {entry : Machine.InitializerEntry}
    {done rest : List Machine.InitializerEntry} {result : Except Fault Value}
    (recorded : engine.Recorded)
    (state : engine.state? id = some (.emitted module true symbols references))
    (split : engine.machine.initializersOf module = done ++ entry :: rest)
    (runs : initializerRuns id engine.journal = done)
    (provided : ∀ name, engine.machine.Reaches [entry.address] name →
      Provides engine.machine engine.host.resolver name)
    (ran : engine.runFor .initializer (.transaction id) (some entry.declaration) entry.address [] =
      .ok (result, after)) : engine.Succeeds after := by
  have member : entry ∈ engine.machine.initializersOf module := by
    rw [split]
    exact List.mem_append_right _ List.mem_cons_self
  obtain ⟨own, stands⟩ := Machine.mem_initializersOf member
  have checked := checked_of_provided recorded.wellFormed.machine stands provided ran
  apply recorded.runFor ran nofun
  refine ⟨id, entry.declaration, symbols, references, rfl, rfl, ?_, ?_, checked⟩
  · rw [own]
    exact state
  · rw [runs, own]
    refine ⟨rest, ?_⟩
    rw [List.append_assoc, List.singleton_append]
    exact split.symm

/-- Running the initializers of a transaction that are left. -/
theorem runInitializers_succeeds {id : TransactionId} {module : ModuleId}
    {symbols references : List String} {done rest : List Machine.InitializerEntry}
    {fault : Option Fault} (recorded : engine.Recorded)
    (state : engine.state? id = some (.emitted module true symbols references))
    (split : engine.machine.initializersOf module = done ++ rest)
    (runs : initializerRuns id engine.journal = done)
    (provided : ∀ entry ∈ rest, ∀ name, engine.machine.Reaches [entry.address] name →
      Provides engine.machine engine.host.resolver name)
    (course : RunsInitializers id engine rest fault after) : engine.Succeeds after := by
  induction course generalizing done with
  | nil engine => exact recorded.succeeds
  | failed run =>
    exact runInitializer_succeeds recorded state split runs (provided _ List.mem_cons_self) run
  | @passed engine between _ entry rest value _ run others inductionHypothesis =>
    have here := provided entry List.mem_cons_self
    have succeeds := runInitializer_succeeds recorded state split runs here run
    obtain ⟨continued, journal⟩ := runFor_eq run
    have stateAfter : between.state? id = some (.emitted module true symbols references) := by
      rw [continued.state?]
      exact state
    have splitAfter : between.machine.initializersOf module = (done ++ [entry]) ++ rest := by
      rw [continued.machine.initializersOf, split, List.append_assoc, List.singleton_append]
    have runsAfter : initializerRuns id between.journal = done ++ [entry] := by
      rw [journal, initializerRuns_cons, runs]
      simp [JournalEntry.initializerRun?, moment]
    have providedAfter : ∀ later ∈ rest, ∀ name, between.machine.Reaches [later.address] name →
        Provides between.machine between.host.resolver name := by
      intro later laterMember name reached
      rw [continued.machine.reaches_iff] at reached
      rw [continued.provides_iff]
      exact provided later (List.mem_cons_of_mem entry laterMember) name reached
    exact succeeds.trans
      (inductionHypothesis succeeds.recorded stateAfter splitAfter runsAfter providedAfter)

/-! ## Initializing -/

/-- The code of transactions stays; it may become initialized. -/
def KeepsCode (before after : Engine) : Prop :=
  ∀ id module initialized symbols references,
    before.state? id = some (.emitted module initialized symbols references) →
    ∃ now, after.state? id = some (.emitted module now symbols references)

theorem KeepsCode.refl (engine : Engine) : engine.KeepsCode engine :=
  fun _ _ initialized _ _ state => ⟨initialized, state⟩

theorem KeepsCode.trans (first : before.KeepsCode between) (second : between.KeepsCode after) :
    before.KeepsCode after := by
  intro id module initialized symbols references state
  obtain ⟨_, stateBetween⟩ := first id module initialized symbols references state
  exact second id module _ symbols references stateBetween

theorem Continues.keepsCode (continues : before.Continues after) : before.KeepsCode after := by
  intro id module initialized symbols references state
  refine ⟨initialized, ?_⟩
  rw [continues.state?]
  exact state

theorem keepsCode_mark (engine : Engine) (id : TransactionId) :
    engine.KeepsCode (engine.mark id) := by
  intro other module initialized symbols references state
  rw [state?_mark, state]
  simp only [Option.map_some, CodeStates.marked]
  split
  · exact ⟨true, rfl⟩
  · exact ⟨initialized, rfl⟩

/-- The transaction is blocked as the engine stands. -/
abbrev IsBlocked (engine : Engine) (id : TransactionId) : Prop :=
  Blocked engine.machine engine.states engine.host.resolver id

/-- What holds of an engine before the transactions of `rest` are taken: all code is
generated, and the other waiting ones are blocked and come before. -/
structure Initializing (target : TransactionId) (engine : Engine) (blockage : Blockage)
    (rest : List Waiting) : Prop where
  recorded : engine.Recorded
  settled : ∀ id unit, engine.state? id ≠ some (.pending unit)
  ascending : rest.Pairwise fun left right => left.id.number < right.id.number
  waits : ∀ next ∈ rest,
    engine.state? next.id = some (.emitted next.module false next.symbols next.references)
  passed : ∀ id module symbols references,
    engine.state? id = some (.emitted module false symbols references) →
    (∃ next ∈ rest, next.id = id) ∨
      (engine.IsBlocked id ∧ (∀ next ∈ rest, id.number < next.id.number) ∧
        ∀ name ∈ symbols, name ∈ blockage.symbols)
  symbols : ∀ name ∈ blockage.symbols, ∃ id module symbols references,
    engine.state? id = some (.emitted module false symbols references) ∧ name ∈ symbols ∧
      engine.IsBlocked id ∧ ∀ next ∈ rest, id.number < next.id.number
  target : ∀ module symbols references,
    engine.state? target = some (.emitted module false symbols references) →
    (∃ next ∈ rest, next.id = target) ∨ blockage.includesTarget = true

/-- What initializing leads to. -/
structure Initialized (target : TransactionId) (before : Engine) (outcome : Option Execution)
    (after : Engine) : Prop where
  succeeds : before.Succeeds after
  keepsCode : before.KeepsCode after
  target : outcome = none → ∀ module symbols references,
    after.state? target ≠ some (.emitted module false symbols references)
  blocked : outcome = none → ∀ id module symbols references,
    after.state? id = some (.emitted module false symbols references) → after.IsBlocked id

variable {target : TransactionId} {blockage : Blockage} {next : Waiting} {rest : List Waiting}

/-- Code that runs, or a search, changes nothing about what is left to initialize. -/
theorem Initializing.continue (initializing : Initializing target before blockage rest)
    (succeeds : before.Succeeds after) (continues : before.Continues after) :
    Initializing target after blockage rest where
  recorded := succeeds.recorded
  settled := by
    intro id unit
    rw [continues.state?]
    exact initializing.settled id unit
  ascending := initializing.ascending
  waits := by
    intro next member
    rw [continues.state?]
    exact initializing.waits next member
  passed := by
    intro id module symbols references state
    rw [continues.state?] at state
    apply (initializing.passed id module symbols references state).imp_right
    rintro ⟨blocked, below, covered⟩
    refine ⟨continues.blocked blocked ?_, below, covered⟩
    intro other _
    rw [continues.states]
  symbols := by
    intro name member
    obtain ⟨id, module, symbols, references, state, defines, blocked, below⟩ :=
      initializing.symbols name member
    refine ⟨id, module, symbols, references, ?_, defines, ?_, below⟩
    · rw [continues.state?]
      exact state
    · apply continues.blocked blocked
      intro other _
      rw [continues.states]
  target := by
    intro module symbols references state
    rw [continues.state?] at state
    exact initializing.target module symbols references state

/-- Transactions of smaller number than those that are left count as initialized or are
blocked. -/
theorem Initializing.earlierSettled
    (initializing : Initializing target engine blockage (next :: rest))
    {id : TransactionId} (earlier : id.number < next.id.number) {module : ModuleId}
    {initialized : Bool} {symbols references : List String}
    (state : engine.state? id = some (.emitted module initialized symbols references)) :
    initialized = true ∨ engine.IsBlocked id := by
  cases initialized with
  | true => exact .inl rfl
  | false =>
    rcases initializing.passed id module symbols references state with
      ⟨left, member, rfl⟩ | ⟨blocked, -⟩
    · have below := (List.pairwise_cons.mp initializing.ascending).1
      rcases List.mem_cons.mp member with rfl | later
      · omega
      · have after := below left later
        omega
    · exact .inr blocked

/-- A transaction that is passed over is blocked. -/
theorem Initializing.pass (initializing : Initializing target engine blockage (next :: rest))
    (missing : NameSet) (blocked : engine.IsBlocked next.id) :
    Initializing target engine
      { symbols := blockage.symbols ++ next.symbols,
        missing := NameSet.insertAll missing blockage.missing,
        includesTarget := blockage.includesTarget || decide (next.id = target) } rest where
  recorded := initializing.recorded
  settled := initializing.settled
  ascending := (List.pairwise_cons.mp initializing.ascending).2
  waits := fun other member => initializing.waits other (List.mem_cons_of_mem next member)
  passed := by
    intro id module symbols references state
    rcases initializing.passed id module symbols references state with
      ⟨left, member, rfl⟩ | ⟨before, below, covered⟩
    · rcases List.mem_cons.mp member with rfl | later
      · refine .inr ⟨blocked, (List.pairwise_cons.mp initializing.ascending).1, ?_⟩
        have waits := initializing.waits left List.mem_cons_self
        rw [state] at waits
        obtain ⟨-, -, rfl, -⟩ := CodeState.emitted.inj (Option.some.inj waits)
        exact fun name own => List.mem_append_right _ own
      · exact .inl ⟨left, later, rfl⟩
    · exact .inr ⟨before, fun other later => below other (List.mem_cons_of_mem next later),
        fun name own => List.mem_append_left _ (covered name own)⟩
  symbols := by
    intro name member
    rcases List.mem_append.mp member with old | new
    · obtain ⟨id, module, symbols, references, state, defines, isBlocked, below⟩ :=
        initializing.symbols name old
      exact ⟨id, module, symbols, references, state, defines, isBlocked,
        fun other later => below other (List.mem_cons_of_mem next later)⟩
    · exact ⟨next.id, next.module, next.symbols, next.references,
        initializing.waits next List.mem_cons_self, new, blocked,
        (List.pairwise_cons.mp initializing.ascending).1⟩
  target := by
    intro module symbols references state
    rcases initializing.target module symbols references state with ⟨left, member, same⟩ | before
    · rcases List.mem_cons.mp member with rfl | later
      · exact .inr (by simp [same])
      · exact .inl ⟨left, later, same⟩
    · exact .inr (by simp [before])

/-- Whether smaller transactions are blocked does not depend on the one that is marked. -/
theorem isBlocked_mark {marked id : TransactionId} (smaller : id.number < marked.number)
    (blocked : engine.IsBlocked id) : (engine.mark marked).IsBlocked id := by
  apply (Continues.refl engine).blocked blocked
  intro other le
  apply state?_mark_of_ne engine
  rintro rfl
  omega

theorem Initializing.state?_of_mark
    (initializing : Initializing target engine blockage (next :: rest)) {id : TransactionId}
    {module : ModuleId} {symbols references : List String}
    (state : (engine.mark next.id).state? id = some (.emitted module false symbols references)) :
    id ≠ next.id ∧ engine.state? id = some (.emitted module false symbols references) := by
  have differs : id ≠ next.id := by
    rintro rfl
    rw [state?_mark_self (initializing.waits next List.mem_cons_self)] at state
    cases state
  rw [state?_mark_of_ne engine differs] at state
  exact ⟨differs, state⟩

/-- The next transaction uses no name of an earlier one that waits, if it uses none of those
that were passed over. -/
theorem Initializing.usesNoneWaiting
    (initializing : Initializing target engine blockage (next :: rest))
    (free : ∀ name ∈ next.references, name ∉ blockage.symbols) :
    engine.UsesNoneWaiting next.id := by
  intro module earlierModule initialized symbols references earlierSymbols earlierReferences
    earlier own waits smaller name uses defines
  have known := initializing.waits next List.mem_cons_self
  rw [own] at known
  obtain ⟨-, -, -, rfl⟩ := CodeState.emitted.inj (Option.some.inj known)
  rcases initializing.passed _ _ _ _ waits with ⟨left, member, rfl⟩ | ⟨-, -, covered⟩
  · have below := (List.pairwise_cons.mp initializing.ascending).1
    rcases List.mem_cons.mp member with rfl | later
    · omega
    · have after := below left later
      omega
  · exact free name uses (covered name defines)

/-- Marking the next transaction is in order. -/
theorem Initializing.succeeds_mark
    (initializing : Initializing target engine blockage (next :: rest))
    (free : ∀ name ∈ next.references, name ∉ blockage.symbols) :
    engine.Succeeds (engine.mark next.id) := by
  apply initializing.recorded.mark (initializing.waits next List.mem_cons_self)
    initializing.settled (initializing.usesNoneWaiting free)
  intro earlier smaller module initialized symbols references state
  have differs : earlier ≠ next.id := by
    rintro rfl
    omega
  have old : engine.state? earlier = some (.emitted module initialized symbols references) := by
    rw [← state?_mark_of_ne engine differs]
    exact state
  exact (initializing.earlierSettled smaller old).imp_right (isBlocked_mark smaller)

/-- Marking the next transaction takes it off those that are left. -/
theorem Initializing.mark (initializing : Initializing target engine blockage (next :: rest))
    (free : ∀ name ∈ next.references, name ∉ blockage.symbols) :
    Initializing target (engine.mark next.id) blockage rest := by
  obtain ⟨below, ascending⟩ := List.pairwise_cons.mp initializing.ascending
  refine ⟨(initializing.succeeds_mark free).recorded, ?_, ascending, ?_, ?_, ?_, ?_⟩
  · intro id unit pending
    rw [state?_mark] at pending
    obtain ⟨state, before, same⟩ := Option.map_eq_some_iff.mp pending
    obtain rfl := CodeStates.eq_pending_of_marked same
    exact initializing.settled id unit before
  · intro other later
    have after := below other later
    rw [state?_mark_of_ne]
    · exact initializing.waits other (List.mem_cons_of_mem next later)
    · intro same
      rw [same] at after
      omega
  · intro id module symbols references state
    obtain ⟨differs, old⟩ := initializing.state?_of_mark state
    rcases initializing.passed id module symbols references old with
      ⟨left, member, rfl⟩ | ⟨blocked, smaller, covered⟩
    · rcases List.mem_cons.mp member with rfl | later
      · exact absurd rfl differs
      · exact .inl ⟨left, later, rfl⟩
    · exact .inr ⟨isBlocked_mark (smaller next List.mem_cons_self) blocked,
        fun other later => smaller other (List.mem_cons_of_mem next later), covered⟩
  · intro name member
    obtain ⟨id, module, symbols, references, state, defines, blocked, smaller⟩ :=
      initializing.symbols name member
    have smallerThanNext := smaller next List.mem_cons_self
    refine ⟨id, module, symbols, references, ?_, defines, isBlocked_mark smallerThanNext blocked,
      fun other later => smaller other (List.mem_cons_of_mem next later)⟩
    rw [state?_mark_of_ne]
    · exact state
    · rintro rfl
      omega
  · intro module symbols references state
    obtain ⟨differs, old⟩ := initializing.state?_of_mark state
    rcases initializing.target module symbols references old with ⟨left, member, same⟩ | before
    · rcases List.mem_cons.mp member with rfl | later
      · exact absurd same.symm differs
      · exact .inl ⟨left, later, same⟩
    · exact .inr before

/-- A transaction that cannot be initialized now is blocked. -/
theorem Initializing.blocked
    (initializing : Initializing target engine blockage (next :: rest))
    (cannot : (∃ name, name ∈ (engine.missingNames
        ((engine.machine.initializersOf next.module).map Machine.InitializerEntry.address)).1) ∨
      ∃ name ∈ next.references, name ∈ blockage.symbols) : engine.IsBlocked next.id := by
  have waits := initializing.waits next List.mem_cons_self
  rcases cannot with ⟨name, missing⟩ | ⟨name, uses, defined⟩
  · obtain ⟨reached, lacks⟩ := (mem_missingNames_iff engine _ name).mp missing
    exact .lacking waits reached lacks
  · obtain ⟨id, module, symbols, references, state, defines, blocked, below⟩ :=
      initializing.symbols name defined
    exact .behind waits (below next List.mem_cons_self) blocked state uses defines

/-- The next transaction is initialized. -/
theorem Initializing.initialize {fault : Option Fault}
    (initializing : Initializing target engine blockage (next :: rest))
    (free : ∀ name ∈ next.references, name ∉ blockage.symbols)
    (provided : ∀ name, engine.machine.Reaches ((engine.machine.initializersOf next.module).map
      Machine.InitializerEntry.address) name → Provides engine.machine engine.host.resolver name)
    (ran : (engine.mark next.id).runInitializers next.id
      (engine.machine.initializersOf next.module) = .ok (fault, after)) :
    engine.Succeeds after ∧ engine.KeepsCode after ∧
      Initializing target after blockage rest ∧
      after.state? next.id = some (.emitted next.module true next.symbols next.references) := by
  have waits := initializing.waits next List.mem_cons_self
  have succeeds := initializing.succeeds_mark free
  have remaining := initializing.mark free
  have marked := state?_mark_self waits
  have notRun : initializerRuns next.id (engine.mark next.id).journal = [] := by
    show initializerRuns next.id (_ :: engine.journal) = []
    rw [initializerRuns_cons]
    by_contra runs
    have olderRuns : initializerRuns next.id engine.journal ≠ [] := by
      simpa [JournalEntry.initializerRun?, moment] using runs
    obtain ⟨_, _, _, initialized⟩ := (initializing.recorded.ran next.id olderRuns).2 _ waits
    cases initialized
  have course := runInitializers_course ran
  have continued := course.continues
  have running := runInitializers_succeeds succeeds.recorded marked rfl notRun
    (by
      intro entry member name reached
      refine provided name (reached.mono ?_)
      intro root start
      rw [List.mem_singleton.mp start]
      exact List.mem_map_of_mem member) course
  refine ⟨succeeds.trans running, ?_, remaining.continue running continued, ?_⟩
  · exact (keepsCode_mark engine next.id).trans continued.keepsCode
  · rw [continued.state?]
    exact marked

/-- A search for missing names leaves everything as it was. -/
theorem Initializing.searched {roots : List Address} {missing : NameSet}
    (initializing : Initializing target engine blockage rest)
    (search : engine.missingNames roots = (missing, after)) :
    engine.Succeeds after ∧ engine.Continues after ∧ Initializing target after blockage rest := by
  have searching := initializing.recorded.missingNames roots
  obtain ⟨continued, -⟩ := engine.missingNames_continues roots
  simp only [search] at searching continued
  exact ⟨searching, continued, initializing.continue searching continued⟩

/-- The next transaction is taken once nothing that it needs is missing. -/
theorem Initializing.taken {searched : Engine} {fault : Option Fault}
    (initializing : Initializing target engine blockage (next :: rest))
    (search : engine.missingNames ((engine.machine.initializersOf next.module).map
      Machine.InitializerEntry.address) = ([], searched))
    (free : ∀ name ∈ next.references, name ∉ blockage.symbols)
    (ran : (searched.mark next.id).runInitializers next.id
      (engine.machine.initializersOf next.module) = .ok (fault, after)) :
    engine.Succeeds after ∧ engine.KeepsCode after ∧ Initializing target after blockage rest := by
  have provided := engine.provided_of_missingNames
    ((engine.machine.initializersOf next.module).map Machine.InitializerEntry.address)
  obtain ⟨-, sameMachine, -⟩ := engine.missingNames_continues
    ((engine.machine.initializersOf next.module).map Machine.InitializerEntry.address)
  obtain ⟨searching, continued, again⟩ := initializing.searched search
  simp only [search, true_implies] at provided sameMachine
  rw [← sameMachine] at ran provided
  obtain ⟨succeeds, keeps, remaining, -⟩ := again.initialize free provided ran
  exact ⟨searching.trans succeeds, continued.keepsCode.trans keeps, remaining⟩

theorem Initialized.preceded {outcome : Option Execution} (succeeds : before.Succeeds between)
    (keepsCode : before.KeepsCode between) (initialized : Initialized target between outcome after) :
    Initialized target before outcome after :=
  ⟨succeeds.trans initialized.succeeds, keepsCode.trans initialized.keepsCode, initialized.target,
    initialized.blocked⟩

theorem initializeAll_initialized {outcome : Option Execution}
    (initializing : Initializing target engine blockage rest)
    (ran : initializeAll target engine blockage rest = .ok (outcome, after)) :
    Initialized target engine outcome after := by
  replace ran := initializeAll_course ran
  induction ran with
  | nil engine blockage =>
    refine ⟨initializing.recorded.succeeds, .refl _, ?_, ?_⟩
    · intro none module symbols references state
      rcases initializing.target module symbols references state with ⟨_, member, -⟩ | includes
      · exact absurd member List.not_mem_nil
      · rw [includes] at none
        cases none
    · intro _ id module symbols references state
      rcases initializing.passed id module symbols references state with
        ⟨_, member, -⟩ | ⟨blocked, -⟩
      · exact absurd member List.not_mem_nil
      · exact blocked
  | @blocked engine searched _ blockage next _ missing _ search lacks others inductionHypothesis =>
    have cannot := initializing.blocked
    obtain ⟨searching, continued, again⟩ := initializing.searched search
    rw [search] at cannot
    have blocked : searched.IsBlocked next.id := by
      refine continued.blocked (cannot (lacks.imp_left ?_)) ?_
      · exact List.exists_mem_of_ne_nil missing
      · intro other _
        rw [continued.states]
    exact (inductionHypothesis (again.pass missing blocked)).preceded searching continued.keepsCode
  | failed search free run isTarget =>
    obtain ⟨succeeds, keeps, -⟩ := initializing.taken search free run
    exact ⟨succeeds, keeps, nofun, nofun⟩
  | taken search free run goesOn others inductionHypothesis =>
    obtain ⟨succeeds, keeps, remaining⟩ := initializing.taken search free run
    exact (inductionHypothesis remaining).preceded succeeds keeps

/-- The transactions that wait, as the states tell. -/
theorem mem_waiting_iff
    (ascending : engine.states.Pairwise fun left right => left.1.number < right.1.number) :
    next ∈ engine.waiting ↔
      engine.state? next.id = some (.emitted next.module false next.symbols next.references) := by
  unfold waiting
  rw [List.mem_filterMap]
  constructor
  · rintro ⟨⟨id, state⟩, member, isNext⟩
    dsimp only at isNext
    split at isNext
    · obtain rfl := Option.some.inj isNext
      exact CodeStates.find_of_mem ascending member
    · cases isNext
  · intro state
    exact ⟨_, CodeStates.mem_of_find state, rfl⟩

theorem ascending_waiting
    (ascending : engine.states.Pairwise fun left right => left.1.number < right.1.number) :
    engine.waiting.Pairwise fun left right => left.id.number < right.id.number := by
  unfold waiting
  rw [List.pairwise_filterMap]
  apply ascending.imp
  rintro ⟨leftId, leftState⟩ ⟨rightId, rightState⟩ below left leftNext right rightNext
  dsimp only at leftNext rightNext
  split at leftNext
  · split at rightNext
    · obtain rfl := Option.some.inj leftNext
      obtain rfl := Option.some.inj rightNext
      exact below
    · cases rightNext
  · cases leftNext

theorem runStaticInitializers_initialized {outcome : Option Execution} (recorded : engine.Recorded)
    (settled : ∀ id unit, engine.state? id ≠ some (.pending unit))
    (ran : engine.runStaticInitializers target = .ok (outcome, after)) :
    Initialized target engine outcome after := by
  have ascending := recorded.wellFormed.states.ascending
  have waiting : ∀ {id module symbols references},
      engine.state? id = some (.emitted module false symbols references) →
      ∃ next ∈ engine.waiting, next.id = id := by
    intro id module symbols references state
    exact ⟨⟨id, module, symbols, references⟩,
      (mem_waiting_iff ascending).mpr state, rfl⟩
  have initializing : Initializing target engine ⟨[], [], false⟩ engine.waiting :=
    { recorded
      settled
      ascending := ascending_waiting ascending
      waits := fun _ member => (mem_waiting_iff ascending).mp member
      passed := fun _ _ _ _ state => .inl (waiting state)
      symbols := fun _ member => absurd member List.not_mem_nil
      target := fun _ _ _ state => .inl (waiting state) }
  exact initializeAll_initialized initializing ran

end Engine

end IncrementalC
