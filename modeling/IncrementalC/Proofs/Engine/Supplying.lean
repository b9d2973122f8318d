import IncrementalC.Proofs.Engine.Breakdown
import IncrementalC.Proofs.Engine.Courses
import IncrementalC.Proofs.Engine.Journal

/-!
Contract: what a report of missing names is worth, and what supplying the names leads to.

Initializing passes over transactions, and what they lack is collected. A chain of transactions
that wait for each other begins with one that lacks a name, so that the target is never passed over
for nothing. The report covers all that still wait. Once its names are supplied, none of them lacks
anything, and only what the entry reaches can be missing.

Owns: names that code lacks, the reports of initializing and of executions, and executions after
native functions were added.

Does not own: who adds native functions.
-/

namespace IncrementalC.Engine

/-- Code at the addresses reaches the name, and nothing provides it. -/
def Lacks (engine : Engine) (roots : List Address) (name : String) : Prop :=
  engine.machine.Reaches roots name ∧ ¬ Provides engine.machine engine.host.resolver name

/-- Where the initializers of a waiting transaction stand. -/
def initializerRoots (engine : Engine) (next : Waiting) : List Address :=
  (engine.machine.initializersOf next.module).map Machine.InitializerEntry.address

/-- No code waits to be generated. -/
def Settled (engine : Engine) : Prop :=
  ∀ entry ∈ engine.states, ∀ unit, entry.2 ≠ .pending unit

/-- The names are listed in strictly ascending order, there are some, and nothing provides them. -/
structure TrulyMissing (engine : Engine) (names : NameSet) : Prop where
  nonempty : names ≠ []
  ascending : names.Pairwise (· < ·)
  lacking : ∀ name ∈ names, ¬ Provides engine.machine engine.host.resolver name

variable {start engine between after : Engine} {target : TransactionId}

/-! ## Courses of initialization -/

/-- `after` is `before` after code has run and transactions were initialized. -/
structure Advances (before after : Engine) : Prop where
  machine : before.machine.Continues after.machine
  native? : ∀ name, after.host.resolver.native? name = before.host.resolver.native? name
  waiting : ∀ next ∈ after.waiting, next ∈ before.waiting
  settled : before.Settled → after.Settled

namespace Advances

theorem refl (engine : Engine) : engine.Advances engine :=
  ⟨.refl _, fun _ => rfl, fun _ => id, id⟩

theorem trans (first : start.Advances between) (second : between.Advances after) :
    start.Advances after where
  machine := first.machine.trans second.machine
  native? name := (second.native? name).trans (first.native? name)
  waiting next member := first.waiting next (second.waiting next member)
  settled := second.settled ∘ first.settled

variable (advances : start.Advances after)

include advances

theorem provides_iff (name : String) : Provides after.machine after.host.resolver name ↔
    Provides start.machine start.host.resolver name := by
  unfold Provides
  rw [advances.machine.resolve?, advances.native?]

theorem lacks_iff (roots : List Address) (name : String) :
    after.Lacks roots name ↔ start.Lacks roots name := by
  unfold Lacks
  rw [advances.machine.reaches_iff, advances.provides_iff]

theorem initializerRoots (next : Waiting) :
    after.initializerRoots next = start.initializerRoots next := by
  unfold Engine.initializerRoots
  rw [advances.machine.initializersOf]

/-- The search before a transaction is taken yields what its initializers lacked from the start. -/
theorem mem_search {next : Waiting} {missing : NameSet} {searched : Engine}
    (search : after.missingNames (after.initializerRoots next) = (missing, searched))
    (name : String) : name ∈ missing ↔ start.Lacks (start.initializerRoots next) name := by
  have found := after.mem_missingNames_iff (after.initializerRoots next) name
  rw [search] at found
  rw [← advances.lacks_iff, ← advances.initializerRoots]
  exact found

end Advances

theorem Continues.waiting (continues : start.Continues after) : after.waiting = start.waiting := by
  unfold Engine.waiting
  rw [continues.states]

theorem Continues.advances (continues : start.Continues after) : start.Advances after where
  machine := continues.machine
  native? := continues.host.resolver.native?_eq
  waiting next member := continues.waiting ▸ member
  settled settled := by
    unfold Settled
    rw [continues.states]
    exact settled

/-- A transaction that is marked does not wait any more; all others do. -/
theorem waiting_mark (engine : Engine) (id : TransactionId) :
    (engine.mark id).waiting = engine.waiting.filter fun next => next.id ≠ id := by
  show (markInitialized id engine.states).filterMap _ = (engine.states.filterMap _).filter _
  unfold markInitialized
  rw [List.filterMap_map, List.filter_filterMap]
  apply List.filterMap_congr
  rintro ⟨other, state⟩ _
  cases state with
  | emitted module initialized symbols references =>
    by_cases same : other = id
    · cases initialized <;> simp [same, Option.filter]
    · cases initialized <;> simp [same, Option.filter]
  | pending unit => rfl
  | excluded => rfl
  | failed error => rfl

theorem mem_waiting_mark {id : TransactionId} {next : Waiting} :
    next ∈ (engine.mark id).waiting ↔ next ∈ engine.waiting ∧ next.id ≠ id := by
  rw [waiting_mark, List.mem_filter, decide_eq_true_iff]

theorem advances_mark (engine : Engine) (id : TransactionId) :
    engine.Advances (engine.mark id) where
  machine := .refl _
  native? _ := rfl
  waiting _ member := (mem_waiting_mark.mp member).1
  settled settled := by
    intro entry member unit pending
    obtain ⟨original, originalMember, rfl⟩ := List.mem_map.mp member
    exact settled original originalMember unit (CodeStates.eq_pending_of_marked pending)

/-- A transaction that is taken does not wait afterwards; what waits besides it goes on waiting. -/
theorem advances_take {searched : Engine} {next : Waiting} {fault : Option Fault}
    (search : engine.missingNames (engine.initializerRoots next) = ([], searched))
    (ran : (searched.mark next.id).runInitializers next.id
      (engine.machine.initializersOf next.module) = .ok (fault, between)) :
    engine.Advances between ∧ ∀ left ∈ between.waiting, left.id ≠ next.id := by
  obtain ⟨searching, -⟩ := engine.missingNames_continues (engine.initializerRoots next)
  rw [search] at searching
  have running := (runInitializers_course ran).continues.advances
  refine ⟨(searching.advances.trans (advances_mark searched next.id)).trans running, ?_⟩
  exact fun left member => (mem_waiting_mark.mp (running.waiting left member)).2

/-! ## Reports of initialization -/

/-- The names are what initializers lacked that were to run: each of them, and all that those lack
which still wait. The target was among them. -/
structure InitializersLack (start : Engine) (target : TransactionId) (after : Engine)
    (names : NameSet) : Prop where
  nonempty : names ≠ []
  ascending : names.Pairwise (· < ·)
  lacked : ∀ name ∈ names, ∃ next ∈ start.waiting, start.Lacks (start.initializerRoots next) name
  targeted : ∃ next ∈ start.waiting, next.id = target
  covered : ∀ next ∈ after.waiting, ∀ name, start.Lacks (start.initializerRoots next) name →
    name ∈ names

/-- What holds before the transactions of `rest` are taken, since `start`. A blocked transaction
leaves a missing name behind: its own, or one of those that it waits for. -/
structure Accounts (start : Engine) (target : TransactionId) (engine : Engine)
    (blockage : Blockage) (rest : List Waiting) : Prop where
  advances : start.Advances engine
  waited : ∀ next ∈ rest, next ∈ start.waiting
  ascending : blockage.missing.Pairwise (· < ·)
  lacked : ∀ name ∈ blockage.missing,
    ∃ next ∈ start.waiting, start.Lacks (start.initializerRoots next) name
  concrete : blockage.symbols ≠ [] ∨ blockage.includesTarget = true → blockage.missing ≠ []
  targeted : blockage.includesTarget = true → ∃ next ∈ start.waiting, next.id = target
  passed : ∀ next ∈ engine.waiting, next ∈ rest ∨
    (∀ name, start.Lacks (start.initializerRoots next) name → name ∈ blockage.missing) ∧
      (next.id = target → blockage.includesTarget = true)

/-- How initializing ends: the target is initialized, or one of its initializers failed, or what
is missing is reported. -/
def Reports (start : Engine) (target : TransactionId) (outcome : Option Execution)
    (after : Engine) : Prop :=
  (outcome = none → ∀ next ∈ after.waiting, next.id ≠ target) ∧
    ∀ execution ∈ outcome, execution.result = .unresolvedSymbols →
      InitializersLack start target after execution.unresolved

section

variable {blockage : Blockage} {next : Waiting} {rest : List Waiting}

theorem accounts_begin (engine : Engine) (target : TransactionId) :
    Accounts engine target engine ⟨[], [], false⟩ engine.waiting where
  advances := .refl engine
  waited _ := id
  ascending := .nil
  lacked _ member := absurd member List.not_mem_nil
  concrete blocked := by simp at blocked
  targeted included := by cases included
  passed _ := .inl

/-- A transaction that is blocked lacks a name itself, or waits for one that left a name behind. -/
theorem Accounts.exists_missing {missing : NameSet}
    (accounts : Accounts start target engine blockage (next :: rest))
    (lacks : missing ≠ [] ∨ ∃ name ∈ next.references, name ∈ blockage.symbols) :
    ∃ name, name ∈ missing ∨ name ∈ blockage.missing := by
  rcases lacks with own | ⟨name, -, blocked⟩
  · obtain ⟨name, member⟩ := List.exists_mem_of_ne_nil missing own
    exact ⟨name, .inl member⟩
  · have earlier := accounts.concrete (.inl (List.ne_nil_of_mem blocked))
    obtain ⟨name, member⟩ := List.exists_mem_of_ne_nil blockage.missing earlier
    exact ⟨name, .inr member⟩

/-- A blocked transaction is passed over. -/
theorem Accounts.pass {missing : NameSet} {searched : Engine}
    (accounts : Accounts start target engine blockage (next :: rest))
    (search : engine.missingNames (engine.initializerRoots next) = (missing, searched))
    (lacks : missing ≠ [] ∨ ∃ name ∈ next.references, name ∈ blockage.symbols) :
    Accounts start target searched
      { symbols := blockage.symbols ++ next.symbols,
        missing := NameSet.insertAll missing blockage.missing,
        includesTarget := blockage.includesTarget || decide (next.id = target) } rest := by
  have own := accounts.advances.mem_search search
  have searching := (engine.missingNames_continues (engine.initializerRoots next)).1.advances
  rw [search] at searching
  have nextWaited := accounts.waited next List.mem_cons_self
  constructor
  case advances => exact accounts.advances.trans searching
  case waited => exact fun left later => accounts.waited left (List.mem_cons_of_mem next later)
  case ascending => exact NameSet.ascending_insertAll accounts.ascending
  case lacked =>
    intro name member
    rcases NameSet.mem_insertAll.mp member with new | old
    · exact ⟨next, nextWaited, (own name).mp new⟩
    · exact accounts.lacked name old
  case concrete =>
    intro _
    obtain ⟨name, member⟩ := accounts.exists_missing lacks
    exact List.ne_nil_of_mem (NameSet.mem_insertAll.mpr member)
  case targeted =>
    intro included
    rcases (Bool.or_eq_true _ _).mp included with old | new
    · exact accounts.targeted old
    · exact ⟨next, nextWaited, of_decide_eq_true new⟩
  case passed =>
    intro other waits
    rcases accounts.passed other (searching.waiting other waits) with left | ⟨covered, isTarget⟩
    · rcases List.mem_cons.mp left with rfl | later
      · right
        refine ⟨fun name lacking => NameSet.mem_insertAll.mpr (.inl ((own name).mpr lacking)), ?_⟩
        exact fun same => (Bool.or_eq_true _ _).mpr (.inr (decide_eq_true same))
      · exact .inl later
    · right
      refine ⟨fun name lacking => NameSet.mem_insertAll.mpr (.inr (covered name lacking)), ?_⟩
      exact fun same => (Bool.or_eq_true _ _).mpr (.inl (isTarget same))

/-- A transaction that lacks nothing is taken. -/
theorem Accounts.take (accounts : Accounts start target engine blockage (next :: rest))
    (advances : engine.Advances between) (taken : ∀ left ∈ between.waiting, left.id ≠ next.id) :
    Accounts start target between blockage rest where
  advances := accounts.advances.trans advances
  waited left later := accounts.waited left (List.mem_cons_of_mem next later)
  ascending := accounts.ascending
  lacked := accounts.lacked
  concrete := accounts.concrete
  targeted := accounts.targeted
  passed other waits := by
    apply (accounts.passed other (advances.waiting other waits)).imp_left
    intro left
    rcases List.mem_cons.mp left with rfl | later
    · exact absurd rfl (taken other waits)
    · exact later

/-- Initializing advances the engine, and reports what was missing. -/
theorem InitializesAll.reports {outcome : Option Execution}
    (course : InitializesAll target engine blockage rest outcome after)
    (accounts : Accounts start target engine blockage rest) :
    start.Advances after ∧ Reports start target outcome after := by
  -- Along the course, each transaction that is passed over or taken keeps the accounts.
  induction course with
  | nil engine blockage =>
    refine ⟨accounts.advances, ?_⟩
    have settled : ∀ next ∈ engine.waiting,
        (∀ name, start.Lacks (start.initializerRoots next) name → name ∈ blockage.missing) ∧
          (next.id = target → blockage.includesTarget = true) :=
      fun next waits => (accounts.passed next waits).resolve_left List.not_mem_nil
    cases included : blockage.includesTarget with
    | false =>
      refine ⟨fun _ next waits isTarget => ?_, nofun⟩
      have contradiction := (settled next waits).2 isTarget
      rw [included] at contradiction
      cases contradiction
    | true =>
      refine ⟨nofun, ?_⟩
      rintro _ ⟨⟩ -
      exact ⟨accounts.concrete (.inr included), accounts.ascending, accounts.lacked,
        accounts.targeted included, fun next waits => (settled next waits).1⟩
  | blocked search lacks _ inductionHypothesis =>
    exact inductionHypothesis (accounts.pass search lacks)
  | failed search free ran isTarget =>
    refine ⟨accounts.advances.trans (advances_take search ran).1, nofun, ?_⟩
    rintro _ ⟨⟩ unresolved
    cases unresolved
  | taken search free ran goesOn _ inductionHypothesis =>
    obtain ⟨advances, taken⟩ := advances_take search ran
    exact inductionHypothesis (accounts.take advances taken)

end

/-! ## Reports of executions -/

/-- The target is initialized, and the names are what its entry lacks. -/
structure EntryLacks (after : Engine) (target : TransactionId) (entry : Option String)
    (names : NameSet) : Prop where
  nonempty : names ≠ []
  ascending : names.Pairwise (· < ·)
  initialized : ∀ next ∈ after.waiting, next.id ≠ target
  lacked : ∃ name address, entry = some name ∧ after.machine.resolve? name = some address ∧
    ∀ missing, missing ∈ names ↔ after.Lacks [address] missing

variable {log : TransactionLog} {entry : Option String} {execution : Execution}

/-- Code that cannot be run at all is not refused for missing names. -/
theorem result_of_refusal? (refused : engine.refusal? target entry = some execution) :
    execution.result ≠ .unresolvedSymbols := by
  intro unresolved
  unfold refusal? at refused
  cases known : engine.state? target with
  | none =>
    rw [known] at refused
    cases refused
    cases unresolved
  | some state =>
    rw [known] at refused
    cases state with
    | pending unit | excluded | failed error =>
      cases refused
      cases unresolved
    | emitted module initialized symbols references =>
      cases entry with
      | none => cases refused
      | some name =>
        by_cases defined : name ∈ symbols
        · simp only [if_pos defined] at refused
          cases refused
        · simp only [if_neg defined] at refused
          cases refused
          cases unresolved

/-- Running the entry of an initialized transaction reports what the entry lacks. -/
theorem runEntry_reports {origin : Option DeclarationId} {name : String}
    (initialized : ∀ next ∈ engine.waiting, next.id ≠ target)
    (ran : engine.runEntry target origin name = .ok (execution, after))
    (unresolved : execution.result = .unresolvedSymbols) :
    engine.Advances after ∧ EntryLacks after target (some name) execution.unresolved := by
  cases runEntry_course ran with
  | unknown absent => cases unresolved
  | @lacking address missing _ found search lacks =>
    have searching := (engine.missingNames_continues [address]).1.advances
    have members := engine.mem_missingNames_iff [address]
    have ascending := engine.ascending_missingNames [address]
    rw [search] at searching members ascending
    refine ⟨searching, lacks, ascending, ?_, name, address, rfl, ?_, ?_⟩
    · exact fun next waits => initialized next (searching.waiting next waits)
    · exact (searching.machine.resolve? name).trans found
    · exact fun missing => (members missing).trans (searching.lacks_iff [address] missing).symm
  | @ran _ _ _ result found search run => cases result <;> cases unresolved

/-- An execution that reports missing names reports what initializers lack, or what the entry of an
initialized transaction lacks. -/
theorem emitAndRun_reports (ran : engine.emitAndRun log target entry = .ok (execution, after))
    (unresolved : execution.result = .unresolvedSymbols) :
    engine.emitPending.Advances after ∧
      (InitializersLack engine.emitPending target after execution.unresolved ∨
        EntryLacks after target entry execution.unresolved) := by
  have initializing : ∀ {outcome : Option Execution} {between : Engine},
      engine.emitPending.runStaticInitializers target = .ok (outcome, between) →
      engine.emitPending.Advances between ∧
        Reports engine.emitPending target outcome between :=
    fun ran => (initializeAll_course ran).reports (accounts_begin _ target)
  cases emitAndRun_course ran with
  | unknown absent => cases unresolved
  | untracked state => cases unresolved
  | excluded state => cases unresolved
  | refused refused => exact absurd unresolved (result_of_refusal? refused)
  | initialized accepted initialized => cases unresolved
  | halted accepted initialized =>
    obtain ⟨advances, -, reported⟩ := initializing initialized
    exact ⟨advances, .inl (reported _ rfl unresolved)⟩
  | entered logged accepted initialized entering =>
    obtain ⟨advances, taken, -⟩ := initializing initialized
    obtain ⟨searching, lacks⟩ := runEntry_reports (taken rfl) entering unresolved
    exact ⟨advances.trans searching, .inr lacks⟩

/-- What is reported is missing. -/
theorem emitAndRun_trulyMissing
    (ran : engine.emitAndRun log target entry = .ok (execution, after))
    (unresolved : execution.result = .unresolvedSymbols) :
    after.TrulyMissing execution.unresolved := by
  obtain ⟨advances, lack | lack⟩ := emitAndRun_reports ran unresolved
  · refine ⟨lack.nonempty, lack.ascending, fun name member => ?_⟩
    obtain ⟨_, -, -, lacking⟩ := lack.lacked name member
    rw [advances.provides_iff]
    exact lacking
  · obtain ⟨_, address, -, -, lacked⟩ := lack.lacked
    exact ⟨lack.nonempty, lack.ascending, fun name member => ((lacked name).mp member).2⟩

/-! ## Supplying names -/

/-- Adds native functions. -/
def supply (supplied : List (String × NativeFunction)) (engine : Engine) : Engine :=
  supplied.foldl (fun engine entry => engine.addFunction entry.1 entry.2) engine

/-- Supplying functions provides their names, and changes nothing else that code depends on. -/
theorem supply_eq (supplied : List (String × NativeFunction)) (engine : Engine) :
    (engine.supply supplied).machine = engine.machine ∧
      (engine.supply supplied).states = engine.states ∧
      (engine.supply supplied).host.atExit = engine.host.atExit ∧
      ∀ name, ((engine.supply supplied).host.resolver.native? name).isSome ↔
        name ∈ supplied.map Prod.fst ∨ (engine.host.resolver.native? name).isSome := by
  induction supplied generalizing engine with
  | nil => exact ⟨rfl, rfl, rfl, fun name => by simp [supply]⟩
  | cons head tail inductionHypothesis =>
    obtain ⟨machine, states, atExit, native⟩ :=
      inductionHypothesis (engine.addFunction head.1 head.2)
    refine ⟨machine, states, atExit, fun name => (native name).trans ?_⟩
    simp only [addFunction, Resolver.native?_addFunction, List.map_cons, List.mem_cons]
    by_cases same : name = head.1
    · simp [same]
    · simp [same]

section

variable (supplied : List (String × NativeFunction))

/-- Code lacks what it lacked, except for what is supplied. -/
theorem lacks_supply (engine : Engine) (roots : List Address) (name : String) :
    (engine.supply supplied).Lacks roots name ↔
      engine.Lacks roots name ∧ name ∉ supplied.map Prod.fst := by
  obtain ⟨machine, -, -, native⟩ := supply_eq supplied engine
  unfold Lacks Provides
  rw [machine, native]
  tauto

end

theorem emitStates_of_settled {machine : Machine} {states : CodeStates}
    (settled : ∀ entry ∈ states, ∀ unit, entry.2 ≠ .pending unit) :
    emitStates machine states = (machine, states) := by
  induction states with
  | nil => rfl
  | cons head tail inductionHypothesis =>
    have rest := inductionHypothesis fun entry later => settled entry (List.mem_cons_of_mem _ later)
    unfold emitStates
    rw [rest]
    split
    · next unit pending => exact absurd pending (settled head List.mem_cons_self unit)
    · rfl

/-! ## Executing again -/

theorem settled_emitPending (wellFormed : engine.WellFormed) : engine.emitPending.Settled := by
  rintro ⟨id, state⟩ member unit rfl
  exact state?_emitPending_ne_pending wellFormed id unit
    (CodeStates.find_of_mem wellFormed.emitPending.states.ascending member)

/-- `again` is `before` after functions were supplied. -/
structure Resumes (before : Engine) (supplied : List (String × NativeFunction)) (again : Engine) :
    Prop where
  machine : again.machine = before.machine
  waiting : again.waiting = before.waiting
  lacks : ∀ roots name, again.Lacks roots name ↔
    before.Lacks roots name ∧ name ∉ supplied.map Prod.fst

/-- An execution after names were supplied starts where the one before ended. -/
theorem resumes_supply (settled : engine.Settled) (supplied : List (String × NativeFunction)) :
    Resumes engine supplied (engine.supply supplied).emitPending := by
  obtain ⟨machine, states, -, -⟩ := supply_eq supplied engine
  have settledAgain : (engine.supply supplied).Settled := by
    unfold Settled
    rw [states]
    exact settled
  have same : (engine.supply supplied).emitPending = (engine.supply supplied).note .generated := by
    unfold emitPending
    rw [emitStates_of_settled settledAgain]
  rw [same]
  refine ⟨machine, ?_, lacks_supply supplied engine⟩
  show (engine.supply supplied).states.filterMap _ = engine.states.filterMap _
  rw [states]

variable {names : NameSet} {supplied : List (String × NativeFunction)}

/-- Once what initializers lacked is supplied, only the entry can lack names. -/
theorem InitializersLack.resumed (lack : InitializersLack start target engine names)
    (advances : start.Advances engine) (settled : engine.Settled)
    (supplies : ∀ name ∈ names, name ∈ supplied.map Prod.fst)
    (ran : (engine.supply supplied).emitAndRun log target entry = .ok (execution, after))
    (unresolved : execution.result = .unresolvedSymbols) :
    EntryLacks after target entry execution.unresolved := by
  have resumes := resumes_supply settled supplied
  apply (emitAndRun_reports ran unresolved).2.resolve_left
  intro again
  obtain ⟨name, member⟩ := List.exists_mem_of_ne_nil _ again.nonempty
  obtain ⟨next, waits, lacking⟩ := again.lacked name member
  have roots : (engine.supply supplied).emitPending.initializerRoots next =
      start.initializerRoots next := by
    rw [← advances.initializerRoots]
    unfold initializerRoots
    rw [resumes.machine]
  rw [resumes.waiting] at waits
  rw [roots, resumes.lacks, advances.lacks_iff] at lacking
  exact lacking.2 (supplies name (lack.covered next waits name lacking.1))

/-- Once what the entry lacked is supplied, nothing is missing any more. -/
theorem EntryLacks.resumed (lack : EntryLacks engine target entry names) (settled : engine.Settled)
    (supplies : ∀ name ∈ names, name ∈ supplied.map Prod.fst)
    (ran : (engine.supply supplied).emitAndRun log target entry = .ok (execution, after)) :
    execution.result ≠ .unresolvedSymbols := by
  intro unresolved
  have resumes := resumes_supply settled supplied
  obtain ⟨advances, again | again⟩ := emitAndRun_reports ran unresolved
  · obtain ⟨next, waits, isTarget⟩ := again.targeted
    rw [resumes.waiting] at waits
    exact lack.initialized next waits isTarget
  · obtain ⟨entryName, address, isEntry, found, lacked⟩ := lack.lacked
    obtain ⟨sameName, sameAddress, sameEntry, foundAgain, lackedAgain⟩ := again.lacked
    obtain rfl := Option.some.inj (isEntry.symm.trans sameEntry)
    rw [advances.machine.resolve?, resumes.machine, found] at foundAgain
    obtain rfl := Option.some.inj foundAgain
    obtain ⟨name, member⟩ := List.exists_mem_of_ne_nil _ again.nonempty
    have lacking := (lackedAgain name).mp member
    rw [advances.lacks_iff, resumes.lacks] at lacking
    exact lacking.2 (supplies name ((lacked name).mpr lacking.1))

end IncrementalC.Engine
