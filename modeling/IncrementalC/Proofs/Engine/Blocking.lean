import IncrementalC.Proofs.Engine.Initialization
import IncrementalC.Proofs.Engine.Orderly
import IncrementalC.Proofs.Engine.Supplying

/-!
Contract: initializing passes over exactly the transactions that are blocked.

The waiting transactions are taken once, by ascending number. Whether one is blocked depends
on what it lacks, which no run changes, and on those before it that are blocked, which are
known by then. So one pass finds the least set of transactions that is closed under waiting
for each other.

Owns: which transactions a pass leaves waiting, what it runs for the others, and what is
reported when the target is left.

Does not own: whether initializing comes to an end, or who provides missing names.
-/

namespace IncrementalC.Engine

variable {start engine searched between after : Engine} {target : TransactionId}
  {blockage : Blockage} {next : Waiting} {done passed rest : List Waiting}

/-! ## What is run -/

/-- What was done with code, oldest first. -/
def activities (engine : Engine) : List Activity :=
  engine.journal.reverse.map JournalEntry.activity

/-- Initializers are run in order, up to the first that fails. -/
inductive RunsUpToFault (owner : TransactionId) :
    List Machine.InitializerEntry → List Activity → Prop where
  | done : RunsUpToFault owner [] []
  | failed {entry : Machine.InitializerEntry} {rest : List Machine.InitializerEntry}
      (cause : Fault) :
      RunsUpToFault owner (entry :: rest)
        [.ran .initializer (.transaction owner) (some entry.declaration) entry.address
          (.error cause)]
  | passed {entry : Machine.InitializerEntry} {rest : List Machine.InitializerEntry}
      {others : List Activity} (value : Value) (goesOn : RunsUpToFault owner rest others) :
      RunsUpToFault owner (entry :: rest)
        (.ran .initializer (.transaction owner) (some entry.declaration) entry.address
          (.ok value) :: others)

/-- One transaction after the other is marked as initialized, and its initializers are run. -/
inductive Initializes (machine : Machine) : List Waiting → List Activity → Prop where
  | done : Initializes machine [] []
  | next {next : Waiting} {rest : List Waiting} {runs others : List Activity}
      (upToFault : RunsUpToFault next.id (machine.initializersOf next.module) runs)
      (goesOn : Initializes machine rest others) :
      Initializes machine (next :: rest) (.initialized next.id :: runs ++ others)

theorem Initializes.concat {machine : Machine} {taken : List Waiting} {earlier runs : List Activity}
    (initializes : Initializes machine taken earlier)
    (upToFault : RunsUpToFault next.id (machine.initializersOf next.module) runs) :
    Initializes machine (taken ++ [next]) (earlier ++ .initialized next.id :: runs) := by
  induction initializes with
  | done =>
    have one : Initializes machine [next] (.initialized next.id :: runs ++ []) := .next upToFault .done
    rwa [List.append_nil] at one
  | next first _ inductionHypothesis =>
    rw [List.append_assoc]
    exact .next first inductionHypothesis

theorem activities_of_journal {entry : JournalEntry}
    (journal : after.journal = entry :: engine.journal) :
    after.activities = engine.activities ++ [entry.activity] := by
  unfold activities
  rw [journal, List.reverse_cons, List.map_append, List.map_singleton]

theorem RunsInitializers.activities {owner : TransactionId} {entries : List Machine.InitializerEntry}
    {fault : Option Fault} (runs : RunsInitializers owner engine entries fault after) :
    ∃ noted, after.activities = engine.activities ++ noted ∧ RunsUpToFault owner entries noted := by
  induction runs with
  | nil engine => exact ⟨[], (List.append_nil _).symm, .done⟩
  | failed ran => exact ⟨_, activities_of_journal (runFor_eq ran).2, .failed _⟩
  | @passed _ _ _ _ _ value _ ran _ inductionHypothesis =>
    obtain ⟨noted, later, upToFault⟩ := inductionHypothesis
    have first := activities_of_journal (runFor_eq ran).2
    refine ⟨_, ?_, .passed value upToFault⟩
    rw [later, first, List.append_assoc]
    rfl

/-! ## What is blocked -/

theorem exists_mem_concat {α : Type} {holds : α → Prop} {elements : List α} {last : α} :
    (∃ element ∈ elements ++ [last], holds element) ↔
      (∃ element ∈ elements, holds element) ∨ holds last := by
  simp only [List.mem_append, List.mem_singleton, or_and_right, exists_or, exists_eq_left]

/-- The transaction lacks a name, or uses a name of an earlier one that is passed over. -/
def BlockedBy (start : Engine) (passed : List Waiting) (next : Waiting) : Prop :=
  (∃ name, start.Lacks (start.initializerRoots next) name) ∨
    ∃ earlier ∈ passed, earlier.id.number < next.id.number ∧
      ∃ name ∈ next.references, name ∈ earlier.symbols

/-- What holds when the transactions of `done` were taken since `start`, and those of `passed`
passed over. -/
structure Passes (start : Engine) (target : TransactionId) (done passed : List Waiting)
    (engine : Engine) (blockage : Blockage) (rest : List Waiting) : Prop where
  advances : start.Advances engine
  ascending : engine.states.Pairwise fun left right => left.1.number < right.1.number
  split : start.waiting = done ++ rest
  waiting : engine.waiting = passed ++ rest
  taken : ∀ earlier ∈ passed, earlier ∈ done
  decided : ∀ earlier ∈ done, earlier ∈ passed ↔ start.BlockedBy passed earlier
  symbols : ∀ name, name ∈ blockage.symbols ↔ ∃ earlier ∈ passed, name ∈ earlier.symbols
  missing : ∀ name, name ∈ blockage.missing ↔
    ∃ earlier ∈ passed, start.Lacks (start.initializerRoots earlier) name
  target : blockage.includesTarget = true ↔ ∃ earlier ∈ passed, earlier.id = target
  noted : ∃ activities, engine.activities = start.activities ++ activities ∧
    Initializes start.machine (done.filter fun earlier => earlier ∉ passed) activities
  initialized : ∀ earlier ∈ done, earlier ∉ passed →
    engine.state? earlier.id =
      some (.emitted earlier.module true earlier.symbols earlier.references)
  others : ∀ id, (∀ earlier ∈ start.waiting, earlier.id ≠ id) →
    engine.state? id = start.state? id

theorem passes_begin
    (ascending : start.states.Pairwise fun left right => left.1.number < right.1.number)
    (target : TransactionId) :
    Passes start target [] [] start ⟨[], [], false⟩ start.waiting where
  advances := .refl start
  ascending := ascending
  split := rfl
  waiting := rfl
  taken _ := id
  decided _ member := absurd member List.not_mem_nil
  symbols _ := by simp
  missing _ := by simp
  target := by simp
  noted := ⟨[], (List.append_nil _).symm, .done⟩
  initialized _ member := absurd member List.not_mem_nil
  others _ _ := rfl

section

variable (passes : Passes start target done passed engine blockage (next :: rest))
  (ordered : start.waiting.Pairwise fun earlier later => earlier.id.number < later.id.number)

include passes ordered

/-- What was taken has a smaller number than what is next. -/
theorem Passes.below : ∀ earlier ∈ done, earlier.id.number < next.id.number := by
  rw [passes.split] at ordered
  exact fun earlier member =>
    (List.pairwise_append.mp ordered).2.2 earlier member next List.mem_cons_self

theorem Passes.above : ∀ later ∈ rest, next.id.number < later.id.number := by
  rw [passes.split] at ordered
  exact (List.pairwise_cons.mp (List.pairwise_append.mp ordered).2.1).1

theorem Passes.not_mem : next ∉ done := fun member =>
  Nat.lt_irrefl _ (passes.below ordered next member)

/-- The next transaction is blocked if the search finds that it lacks a name or it uses a name
of one that was passed over. -/
theorem Passes.blockedBy_iff {missing : NameSet}
    (search : engine.missingNames (engine.initializerRoots next) = (missing, searched)) :
    start.BlockedBy passed next ↔
      missing ≠ [] ∨ ∃ name ∈ next.references, name ∈ blockage.symbols := by
  have own : (∃ name, start.Lacks (start.initializerRoots next) name) ↔ missing ≠ [] := by
    simp only [← passes.advances.mem_search search]
    exact ⟨fun ⟨_, member⟩ => List.ne_nil_of_mem member, List.exists_mem_of_ne_nil missing⟩
  have behind : (∃ earlier ∈ passed, earlier.id.number < next.id.number ∧
      ∃ name ∈ next.references, name ∈ earlier.symbols) ↔
      ∃ name ∈ next.references, name ∈ blockage.symbols := by
    constructor
    · rintro ⟨earlier, member, -, name, used, defined⟩
      exact ⟨name, used, (passes.symbols name).mpr ⟨earlier, member, defined⟩⟩
    · rintro ⟨name, used, blocked⟩
      obtain ⟨earlier, member, defined⟩ := (passes.symbols name).mp blocked
      exact ⟨earlier, member, passes.below ordered earlier (passes.taken earlier member), name, used,
        defined⟩
  exact or_congr own behind

/-- Whether one that was taken is blocked does not depend on the next. -/
theorem Passes.blockedBy_concat {earlier : Waiting} (member : earlier ∈ done) :
    start.BlockedBy (passed ++ [next]) earlier ↔ start.BlockedBy passed earlier := by
  have below := passes.below ordered earlier member
  apply or_congr_right
  constructor
  · rintro ⟨other, inPassed, smaller, uses⟩
    rcases List.mem_append.mp inPassed with old | new
    · exact ⟨other, old, smaller, uses⟩
    · rw [List.mem_singleton.mp new] at smaller
      omega
  · rintro ⟨other, inPassed, smaller, uses⟩
    exact ⟨other, List.mem_append_left _ inPassed, smaller, uses⟩

/-! ## Taking a transaction -/

/-- A blocked transaction is passed over. -/
theorem Passes.pass {missing : NameSet}
    (search : engine.missingNames (engine.initializerRoots next) = (missing, searched))
    (lacks : missing ≠ [] ∨ ∃ name ∈ next.references, name ∈ blockage.symbols) :
    Passes start target (done ++ [next]) (passed ++ [next]) searched
      { symbols := blockage.symbols ++ next.symbols,
        missing := NameSet.insertAll missing blockage.missing,
        includesTarget := blockage.includesTarget || decide (next.id = target) } rest := by
  have blocked := (passes.blockedBy_iff ordered search).mpr lacks
  have own := passes.advances.mem_search search
  obtain ⟨searching, -, journal⟩ := engine.missingNames_continues (engine.initializerRoots next)
  rw [search] at searching journal
  have notDone := passes.not_mem ordered
  have differs : ∀ earlier ∈ done, earlier ≠ next := fun earlier member same =>
    notDone (same ▸ member)
  constructor
  case advances => exact passes.advances.trans searching.advances
  case ascending => exact searching.states ▸ passes.ascending
  case split => rw [passes.split, List.append_assoc, List.singleton_append]
  case waiting =>
    rw [searching.waiting, passes.waiting, List.append_assoc, List.singleton_append]
  case taken =>
    intro earlier member
    exact (List.mem_append.mp member).elim
      (fun old => List.mem_append_left _ (passes.taken earlier old)) (List.mem_append_right _)
  case decided =>
    intro earlier member
    rcases List.mem_append.mp member with old | new
    · rw [passes.blockedBy_concat ordered old, ← passes.decided earlier old]
      simp [differs earlier old]
    · rw [List.mem_singleton.mp new]
      have stillBlocked : start.BlockedBy (passed ++ [next]) next :=
        blocked.imp_right fun ⟨earlier, inPassed, uses⟩ =>
          ⟨earlier, List.mem_append_left _ inPassed, uses⟩
      exact iff_of_true (List.mem_append_right _ (List.mem_singleton_self _)) stillBlocked
  case symbols =>
    intro name
    rw [List.mem_append, passes.symbols, exists_mem_concat]
  case missing =>
    intro name
    rw [NameSet.mem_insertAll, own, passes.missing, or_comm, exists_mem_concat]
  case target =>
    rw [Bool.or_eq_true, passes.target, decide_eq_true_iff, exists_mem_concat]
  case noted =>
    obtain ⟨activities, noted, initializes⟩ := passes.noted
    refine ⟨activities, ?_, ?_⟩
    · unfold Engine.activities at noted ⊢
      rw [journal, noted]
    · have same : (done ++ [next]).filter (fun earlier => earlier ∉ passed ++ [next]) =
          done.filter fun earlier => earlier ∉ passed := by
        rw [List.filter_append, List.filter_cons_of_neg (by simp), List.filter_nil, List.append_nil]
        apply List.filter_congr
        intro earlier member
        simp [differs earlier member]
      rw [same]
      exact initializes
  case initialized =>
    intro earlier member initialized
    obtain ⟨notPassed, notNext⟩ : earlier ∉ passed ∧ earlier ≠ next := by simpa using initialized
    have inDone : earlier ∈ done := by simpa [notNext] using member
    rw [searching.state?]
    exact passes.initialized earlier inDone notPassed
  case others =>
    intro id foreign
    rw [searching.state?]
    exact passes.others id foreign

/-- A transaction that is not blocked is initialized. -/
theorem Passes.take {fault : Option Fault}
    (search : engine.missingNames (engine.initializerRoots next) = ([], searched))
    (free : ∀ name ∈ next.references, name ∉ blockage.symbols)
    (ran : (searched.mark next.id).runInitializers next.id
      (engine.machine.initializersOf next.module) = .ok (fault, between)) :
    Passes start target (done ++ [next]) passed between blockage rest := by
  have unblocked : ¬start.BlockedBy passed next := by
    rw [passes.blockedBy_iff ordered search, not_or, not_not]
    exact ⟨rfl, fun ⟨name, used, blocked⟩ => free name used blocked⟩
  obtain ⟨advances, taken⟩ := advances_take search ran
  obtain ⟨searching, -, journal⟩ := engine.missingNames_continues (engine.initializerRoots next)
  rw [search] at searching journal
  have course := runInitializers_course ran
  have running := course.continues
  have notDone := passes.not_mem ordered
  have notPassed : next ∉ passed := fun member => notDone (passes.taken next member)
  constructor
  case advances => exact passes.advances.trans advances
  case ascending =>
    rw [running.states]
    exact CodeStates.ascending_markInitialized (searching.states ▸ passes.ascending) next.id
  case split => rw [passes.split, List.append_assoc, List.singleton_append]
  case waiting =>
    rw [running.waiting, waiting_mark, searching.waiting, passes.waiting, List.filter_append,
      List.filter_cons_of_neg (by simp)]
    have earlierStay : ∀ earlier ∈ passed, decide (earlier.id ≠ next.id) = true := by
      intro earlier member
      have smaller := passes.below ordered earlier (passes.taken earlier member)
      exact decide_eq_true fun same => Nat.lt_irrefl _ (same ▸ smaller)
    have laterStay : ∀ later ∈ rest, decide (later.id ≠ next.id) = true := by
      intro later member
      have larger := passes.above ordered later member
      exact decide_eq_true fun same => Nat.lt_irrefl _ (same ▸ larger)
    rw [List.filter_eq_self.mpr earlierStay, List.filter_eq_self.mpr laterStay]
  case taken => exact fun earlier member => List.mem_append_left _ (passes.taken earlier member)
  case decided =>
    intro earlier member
    rcases List.mem_append.mp member with old | new
    · exact passes.decided earlier old
    · rw [List.mem_singleton.mp new]
      exact iff_of_false notPassed unblocked
  case symbols => exact passes.symbols
  case missing => exact passes.missing
  case target => exact passes.target
  case noted =>
    obtain ⟨activities, noted, initializes⟩ := passes.noted
    obtain ⟨runs, ranThen, upToFault⟩ := course.activities
    have marked : (searched.mark next.id).activities =
        engine.activities ++ [.initialized next.id] := by
      have entered : (searched.mark next.id).journal = _ :: searched.journal := rfl
      rw [activities_of_journal entered, Engine.activities, journal]
      rfl
    have filtered : (done ++ [next]).filter (fun earlier => earlier ∉ passed) =
        (done.filter fun earlier => earlier ∉ passed) ++ [next] := by
      rw [List.filter_append, List.filter_cons_of_pos (by simpa using notPassed),
        List.filter_nil]
    rw [passes.advances.machine.initializersOf] at upToFault
    refine ⟨activities ++ .initialized next.id :: runs, ?_, ?_⟩
    · rw [ranThen, marked, noted]
      simp only [List.append_assoc, List.singleton_append]
    · rw [filtered]
      exact initializes.concat upToFault
  case initialized =>
    intro earlier member initialized
    rw [running.state?]
    rcases List.mem_append.mp member with old | new
    · have smaller := passes.below ordered earlier old
      rw [state?_mark_of_ne searched fun same => Nat.lt_irrefl _ (same ▸ smaller),
        searching.state?]
      exact passes.initialized earlier old initialized
    · rw [List.mem_singleton.mp new]
      apply state?_mark_self
      rw [searching.state?]
      apply (mem_waiting_iff passes.ascending).mp
      rw [passes.waiting]
      exact List.mem_append_right _ List.mem_cons_self
  case others =>
    intro id foreign
    have waited : next ∈ start.waiting := by
      rw [passes.split]
      exact List.mem_append_right _ List.mem_cons_self
    rw [running.state?, state?_mark_of_ne searched (foreign next waited).symm, searching.state?]
    exact passes.others id foreign

end

/-! ## Taking all -/

/-- What a pass leads to if the target does not fail. -/
theorem InitializesAll.passes {outcome : Option Execution}
    (course : InitializesAll target engine blockage rest outcome after)
    (passes : Passes start target done passed engine blockage rest)
    (ordered : start.waiting.Pairwise fun earlier later => earlier.id.number < later.id.number)
    (fine : ∀ execution ∈ outcome, execution.result ≠ .faulted) :
    ∃ left final, Passes start target start.waiting left after final [] ∧
      outcome = if final.includesTarget then some (.lacking final.missing) else none := by
  induction course generalizing done passed with
  | nil engine blockage =>
    have all : done = start.waiting := by rw [passes.split, List.append_nil]
    exact ⟨passed, blockage, all ▸ passes, rfl⟩
  | blocked search lacks _ inductionHypothesis =>
    exact inductionHypothesis (passes.pass ordered search lacks) fine
  | failed search free ran isTarget => exact absurd rfl (fine _ rfl)
  | taken search free ran goesOn _ inductionHypothesis =>
    exact inductionHypothesis (passes.take ordered search free ran) fine

/-- What initializing leads to: of those that waited it leaves the blocked ones waiting, and
initializes the others. -/
structure InitializesUnblocked (start : Engine) (target : TransactionId)
    (outcome : Option Execution) (after : Engine) : Prop where
  ordered : start.waiting.Pairwise fun earlier later => earlier.id.number < later.id.number
  waited : ∀ next, next ∈ start.waiting ↔
    start.state? next.id = some (.emitted next.module false next.symbols next.references)
  waits : ∀ next, next ∈ after.waiting ↔
    after.state? next.id = some (.emitted next.module false next.symbols next.references)
  /-- One is left if a name that its initializers reach is defined nowhere, or its module refers
  to a name of an earlier one that is left. -/
  blocked : ∀ next ∈ start.waiting, next ∈ after.waiting ↔
    (∃ name, start.Lacks (start.initializerRoots next) name) ∨
      ∃ earlier ∈ start.waiting, earlier.id.number < next.id.number ∧ earlier ∈ after.waiting ∧
        ∃ name ∈ start.machine.referencesOf next.module,
          name ∈ start.machine.symbolsOf earlier.module
  noted : ∃ activities, after.activities = start.activities ++ activities ∧
    Initializes start.machine (start.waiting.filter fun next => next ∉ after.waiting) activities
  initialized : ∀ next ∈ start.waiting, next ∉ after.waiting →
    after.state? next.id = some (.emitted next.module true next.symbols next.references)
  others : ∀ id, (∀ next ∈ start.waiting, next.id ≠ id) → after.state? id = start.state? id
  reported : (∃ execution ∈ outcome, execution.result = .unresolvedSymbols) ↔
    ∃ next ∈ after.waiting, next.id = target

/-- A waiting transaction tells truly which names its module has. -/
theorem Orderly.told (orderly : engine.Orderly) (waits : next ∈ engine.waiting) :
    next.symbols = engine.machine.symbolsOf next.module ∧
      next.references = engine.machine.referencesOf next.module := by
  have state := (mem_waiting_iff orderly.ascending).mp waits
  obtain ⟨unit, found, symbols, references⟩ := orderly.tells _ (CodeStates.mem_of_find state)
  rw [Machine.symbolsOf, Machine.referencesOf, found]
  exact ⟨symbols, references⟩

/-- In every engine that operations lead to, whatever code it was given: if initializing comes to
its end and the target does not fail, exactly the blocked transactions are left waiting, all
others are initialized, with their initializers run in order up to the first that fails, no
other state changes, and missing names are reported exactly if the target is left. -/
theorem initializing_leaves_the_blocked {limits : Limits} {source : LibrarySource}
    (reached : Reached limits source engine) {outcome : Option Execution}
    (ran : engine.runStaticInitializers target = .ok (outcome, after))
    (fine : ∀ execution ∈ outcome, execution.result ≠ .faulted) :
    engine.InitializesUnblocked target outcome after := by
  have orderly := reached.orderly
  have ordered := ascending_waiting orderly.ascending
  obtain ⟨left, final, passes, ended⟩ := (initializeAll_course ran).passes
    (passes_begin orderly.ascending target) ordered fine
  have leftWaits : after.waiting = left := by rw [passes.waiting, List.append_nil]
  subst leftWaits
  constructor
  case ordered => exact ordered
  case waited => exact fun _ => mem_waiting_iff orderly.ascending
  case waits => exact fun _ => mem_waiting_iff passes.ascending
  case blocked =>
    intro next waited
    rw [passes.decided next waited]
    apply or_congr_right
    constructor
    · rintro ⟨earlier, waits, smaller, name, used, defined⟩
      have earlierWaited := passes.taken earlier waits
      rw [(orderly.told waited).2] at used
      rw [(orderly.told earlierWaited).1] at defined
      exact ⟨earlier, earlierWaited, smaller, waits, name, used, defined⟩
    · rintro ⟨earlier, earlierWaited, smaller, waits, name, used, defined⟩
      rw [← (orderly.told waited).2] at used
      rw [← (orderly.told earlierWaited).1] at defined
      exact ⟨earlier, waits, smaller, name, used, defined⟩
  case noted => exact passes.noted
  case initialized => exact passes.initialized
  case others => exact passes.others
  case reported =>
    rw [← passes.target, ended]
    cases final.includesTarget with
    | true => simp [Execution.lacking]
    | false => simp

/-- The code of `int name = value;`. -/
def variableUnit (number : Nat) (name : String) (value : Code.Expression) : CodeUnit :=
  ⟨some ⟨number⟩, [], [⟨name, ⟨number⟩, none⟩], [⟨name, ⟨number⟩, value⟩]⟩

/-- Tracks the transaction that brings the code of `int name = value;`. -/
def trackVariable (number : Nat) (name : String) (value : Code.Expression) : Operation :=
  .track { Transaction.new ⟨number⟩ .declaration with
    state := .committed, declarations := [⟨number⟩] } (variableUnit number name value)

/-- Of `int a = g();`, `int b = a;` and `int c = 1 / 0;`, where nothing defines `g`, the first is
blocked and holds back the second. The third is initialized, although it fails. -/
theorem a_blocked_initializer_holds_back_its_users :
    ∃ engine outcome after, Reached .standard .sharedObjects engine ∧
      engine.runStaticInitializers ⟨1⟩ = .ok (outcome, after) ∧
      (∀ execution ∈ outcome, execution.result ≠ .faulted) ∧
      after.waiting.map Waiting.id = [⟨0⟩, ⟨1⟩] ∧ after.status? ⟨2⟩ = some (.emitted true) ∧
      engine.InitializesUnblocked ⟨1⟩ outcome after := by
  have facts : ([trackVariable 0 "a" (.call "g" []), trackVariable 1 "b" (.global "a"),
      trackVariable 2 "c" (.binary .divide (.integer 1) (.integer 0))].foldlM perform
        (new .standard .sharedObjects)).toOption.any (fun tracked =>
      (tracked.emitPending.runStaticInitializers ⟨1⟩).toOption.any fun ended =>
        decide (ended.1 = some (.lacking ["g"]) ∧
          ended.2.waiting.map Waiting.id = [⟨0⟩, ⟨1⟩] ∧
          ended.2.status? ⟨2⟩ = some (.emitted true))) = true := by
    decide +kernel
  obtain ⟨tracked, performed, facts⟩ := ok_of_any facts
  obtain ⟨⟨outcome, after⟩, ran, facts⟩ := ok_of_any facts
  obtain ⟨rfl, waiting, status⟩ := of_decide_eq_true facts
  have reached : Reached .standard .sharedObjects tracked.emitPending :=
    .works (reached_of_performed .start performed) .generated
  have fine : ∀ execution ∈ some (Execution.lacking ["g"]), execution.result ≠ .faulted := by
    rintro _ ⟨⟩
    nofun
  exact ⟨_, _, after, reached, ran, fine, waiting, status,
    initializing_leaves_the_blocked reached ran fine⟩

end IncrementalC.Engine
