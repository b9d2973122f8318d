import IncrementalC.Proofs.Compilation.Rollback
import IncrementalC.Proofs.Compilation.Scopes

/-!
Contract: what is left of a scope that its caller drops.

A dropped scope rolls its transaction back. Its declarations and its code are gone, and its number
is used up. But the reports of its chunks wait in the checker, and the next request takes them for
its own: it tells them, and fails if one of them is fatal.

Owns:
- dropped scopes, and what reading chunks adds to the checker;
- what a request makes of reports that wait;
- the comparison of a request after a dropped scope with the one without the scope.

Does not own: scopes that end in another way, or input that is discarded by requests.
-/

namespace IncrementalC

open Relation (ReflTransGen)

/-! ## Reading chunks -/

/-- What a request tells of reports. -/
def notable (reports : List Diagnostic) : List Diagnostic :=
  reports.filter fun report => !report.isBenign

theorem notable_append (earlier later : List Diagnostic) :
    notable (earlier ++ later) = notable earlier ++ notable later := List.filter_append ..

namespace CompileReport

/-- Whether a request that succeeds fails once it has to tell further reports. -/
def spoiledBy (report : CompileReport) (reports : List Diagnostic) (options : TransactionOptions) :
    Bool :=
  report.verdict = .success && reports.any fun waiting => waiting.isFatal options.fatalWarnings

/-- The answer of a request that tells the reports of others before its own. -/
def burdened (report : CompileReport) (reports : List Diagnostic) (options : TransactionOptions) :
    CompileReport :=
  { report with
    verdict := if report.spoiledBy reports options then .failure else report.verdict
    diagnostics := reports ++ report.diagnostics }

theorem spoiledBy_append (report : CompileReport) (first second : List Diagnostic)
    (options : TransactionOptions) :
    report.spoiledBy (first ++ second) options =
      (report.spoiledBy first options || report.spoiledBy second options) := by
  simp only [spoiledBy, List.any_append, Bool.and_or_distrib_left]

/-- An answer is spoiled once. -/
theorem spoiledBy_burdened (report : CompileReport) (first second : List Diagnostic)
    (options : TransactionOptions) :
    (report.burdened first options).spoiledBy second options =
      (!report.spoiledBy first options && report.spoiledBy second options) := by
  cases spoiled : report.spoiledBy first options with
  | true =>
    have failed : (report.burdened first options).verdict = .failure := if_pos spoiled
    simp only [spoiledBy, failed, reduceCtorEq, decide_false, Bool.false_and, Bool.not_true]
  | false =>
    have kept : (report.burdened first options).verdict = report.verdict :=
      if_neg (by simp [spoiled])
    simp only [spoiledBy, kept, Bool.not_false, Bool.true_and]

/-- An answer is burdened by reports that are told, and by nothing else. -/
theorem burdened_eq_iff (report : CompileReport) (reports : List Diagnostic)
    (options : TransactionOptions) : report.burdened reports options = report ↔ reports = [] := by
  constructor
  · intro same
    exact List.append_left_eq_self.mp (congrArg CompileReport.diagnostics same)
  · rintro rfl
    simp [burdened, spoiledBy]

/-- How the answer `taking`, given while `reports` wait in addition, differs from `report`. Before
them `waiting` waited in any case. -/
structure TakesMore (renumbering : Renumbering) (waiting reports : List Diagnostic)
    (options : TransactionOptions) (report taking : CompileReport) : Prop where
  transaction : taking.transaction = renumbering.transaction report.transaction
  verdict : taking.verdict =
    if report.spoiledBy (notable reports) options then .failure else report.verdict
  diagnostics : ∃ own, report.diagnostics = notable waiting ++ own ∧
    taking.diagnostics = notable waiting ++ (notable reports ++ own)

/-- The answers are the same exactly if there is nothing more to tell. -/
theorem TakesMore.same_iff {renumbering : Renumbering}
    {waiting reports : List Diagnostic} {options : TransactionOptions}
    {report taking : CompileReport}
    (more : TakesMore renumbering waiting reports options report taking) :
    taking = renumbering.report report ↔ notable reports = [] := by
  obtain ⟨transaction, verdict, own, plain, told⟩ := more
  constructor
  · intro same
    have lengths := congrArg (fun answer : CompileReport => answer.diagnostics.length) same
    simp only [Renumbering.report, told, plain, List.length_append] at lengths
    exact List.length_eq_zero_iff.mp (by omega)
  · intro nothing
    rw [nothing, List.nil_append, ← plain] at told
    have harmless : report.spoiledBy (notable reports) options = false := by
      simp [spoiledBy, nothing]
    rw [harmless] at verdict
    obtain ⟨_, _, _⟩ := taking
    obtain rfl := transaction
    obtain rfl := told
    obtain rfl := verdict
    rfl

theorem takesMore_burdened (renumbering : Renumbering) (waiting reports : List Diagnostic)
    (options : TransactionOptions) (report : CompileReport) :
    TakesMore renumbering waiting reports options (report.burdened (notable waiting) options)
      ((renumbering.report report).burdened (notable (waiting ++ reports)) options) where
  transaction := rfl
  verdict := by
    rw [spoiledBy_burdened, notable_append]
    change (if report.spoiledBy (notable waiting ++ notable reports) options = true then
      CompileVerdict.failure else report.verdict) = if _ then _ else
        if report.spoiledBy (notable waiting) options = true then .failure else report.verdict
    rw [spoiledBy_append]
    cases report.spoiledBy (notable waiting) options <;>
      cases report.spoiledBy (notable reports) options <;> rfl
  diagnostics := ⟨report.diagnostics, rfl, by
    simp only [burdened, Renumbering.report, notable_append, List.append_assoc]⟩

end CompileReport

namespace Checker

/-- Text of a transaction was read: there are more records of the transaction and more reports, and
the units of all others are kept. -/
structure Adds (id : TransactionId) (reports : List Diagnostic) (before after : Checker) :
    Prop where
  wellFormed : before.table.WellFormed → after.table.WellFormed
  below : ∀ limit, before.table.WellFormed → id.number < limit →
    before.table.Below limit → after.table.Below limit
  records : ∃ added, after.table.records = before.table.records ++ added ∧
    ∀ record ∈ added, record.owner = id
  units : dropUnit id after.units = dropUnit id before.units
  keys : ∀ entry ∈ after.units, entry ∈ before.units ∨ entry.1 = id
  diagnostics : after.diagnostics = before.diagnostics ++ reports

namespace Adds

variable {id : TransactionId} {first second : List Diagnostic} {before between after : Checker}

theorem refl (checker : Checker) : Adds id [] checker checker where
  wellFormed := fun known => known
  below _ _ _ known := known
  records := ⟨[], (List.append_nil _).symm, fun _ absent => absurd absent List.not_mem_nil⟩
  units := rfl
  keys _ member := .inl member
  diagnostics := (List.append_nil _).symm

theorem trans (earlier : Adds id first before between) (later : Adds id second between after) :
    Adds id (first ++ second) before after where
  wellFormed known := later.wellFormed (earlier.wellFormed known)
  below limit known begun all :=
    later.below limit (earlier.wellFormed known) begun (earlier.below limit known begun all)
  records := by
    obtain ⟨firstAdded, firstRecords, firstOwned⟩ := earlier.records
    obtain ⟨secondAdded, secondRecords, secondOwned⟩ := later.records
    refine ⟨firstAdded ++ secondAdded, ?_, fun record member => ?_⟩
    · rw [secondRecords, firstRecords, List.append_assoc]
    · exact (List.mem_append.mp member).elim (firstOwned record) (secondOwned record)
  units := later.units.trans earlier.units
  keys entry member := (later.keys entry member).elim (earlier.keys entry) .inr
  diagnostics := by rw [later.diagnostics, earlier.diagnostics, List.append_assoc]

/-- Forgetting the transaction again leaves of all this forgotten records, and the reports. -/
theorem forgotten (adds : Adds id first before after) (untouched : before.Untouched id)
    (wellFormed : before.table.WellFormed) :
    Compiler.OnlyGapAdded before (after.forget id) ∧
      (after.forget id).diagnostics = before.diagnostics ++ first := by
  obtain ⟨added, records, owned⟩ := adds.records
  have gap := Compiler.onlyGapAdded_of_extends untouched (adds.wellFormed wellFormed) records owned
  refine ⟨⟨gap.wellFormed, gap.records, ?_⟩, adds.diagnostics⟩
  exact adds.units.trans (Compiler.dropUnit_untouched untouched.units)

end Adds

/-- Reports alone are added. -/
theorem adds_reports (id : TransactionId) (checker : Checker) (reports : List Diagnostic) :
    Adds id reports checker { checker with diagnostics := checker.diagnostics ++ reports } where
  wellFormed := fun known => known
  below _ _ _ known := known
  records := ⟨[], (List.append_nil _).symm, fun _ absent => absurd absent List.not_mem_nil⟩
  units := rfl
  keys _ member := .inl member
  diagnostics := rfl

/-- An analysis adds its records and its reports. -/
theorem adds_analysis (id : TransactionId) (checker : Checker) (items : List Syntax.Item)
    {units : List (TransactionId × CodeUnit)}
    (sameUnits : dropUnit id units = dropUnit id checker.units)
    (keys : ∀ entry ∈ units, entry ∈ checker.units ∨ entry.1 = id) :
    Adds id (analyze items checker.table id).diagnostics checker
      { table := (analyze items checker.table id).table, units,
        diagnostics := checker.diagnostics ++ (analyze items checker.table id).diagnostics } := by
  have extension := Analysis.analyze_extends items checker.table id
  obtain ⟨added, -, records, owned, -⟩ := extension.added
  exact
    { wellFormed := extension.wellFormed
      below := extension.below
      records := ⟨added, records, fun record member => (owned record member).1⟩
      units := sameUnits
      keys
      diagnostics := rfl }

/-- A transaction that collects can always be fed, and feeding it adds to the checker. -/
theorem feed_adds (checker : Checker) {transaction : Transaction}
    (collecting : transaction.state = .collecting) (text : String) :
    ∃ outcome fed after reports,
      checker.feed transaction text = .ok (outcome, fed, after) ∧
      Adds transaction.id reports checker after ∧ fed.options = transaction.options := by
  have appended : transaction.appendSource text = .ok (transaction.continuedBy text) :=
    if_pos collecting
  simp only [feed, appended]
  rcases reading : Syntax.parseProgram (transaction.continuedBy text).source with
    (_ | diagnostic) | items
  · exact ⟨_, _, _, [], rfl, .refl checker, rfl⟩
  · exact ⟨_, _, _, [diagnostic], rfl, adds_reports transaction.id checker [diagnostic], rfl⟩
  · simp only [record,
      Compiler.addDeclarations_collecting (transaction.continuedBy text) collecting]
    split
    · exact ⟨_, _, _, _, rfl, adds_analysis transaction.id checker items rfl fun _ => .inl, rfl⟩
    · refine ⟨_, _, _, _, rfl, adds_analysis transaction.id checker items
        (Compiler.dropUnit_cons_dropUnit _ _ _) (fun entry member => ?_), rfl⟩
      rcases List.mem_cons.mp member with rfl | kept
      · exact .inr rfl
      · exact .inl (Compiler.mem_of_mem_dropUnit kept)

theorem collecting_of_feed {checker after : Checker} {transaction fed : Transaction} {text : String}
    {outcome : FeedOutcome} (takes : checker.feed transaction text = .ok (outcome, fed, after)) :
    transaction.state = .collecting := by
  by_contra refused
  have misused : transaction.appendSource text = .error (.inputRefused transaction.id) :=
    if_neg refused
  simp only [feed, misused] at takes
  cases takes

/-- Reports that wait change nothing in the reading of a chunk, and go on waiting before its own. -/
theorem feed_waiting {checker after : Checker} {transaction fed : Transaction} {text : String}
    {outcome : FeedOutcome} (waiting : List Diagnostic)
    (takes : checker.feed transaction text = .ok (outcome, fed, after)) :
    { checker with diagnostics := waiting ++ checker.diagnostics }.feed transaction text =
      .ok (outcome, fed, { after with diagnostics := waiting ++ after.diagnostics }) := by
  have collecting := collecting_of_feed takes
  have appended : transaction.appendSource text = .ok (transaction.continuedBy text) :=
    if_pos collecting
  simp only [feed, appended] at takes ⊢
  rcases reading : Syntax.parseProgram (transaction.continuedBy text).source with
    (_ | diagnostic) | items
  · simp only [reading] at takes ⊢
    cases takes
    rfl
  · simp only [reading] at takes ⊢
    cases takes
    simp only [List.append_assoc]
  · simp only [reading, record,
      Compiler.addDeclarations_collecting (transaction.continuedBy text) collecting] at takes ⊢
    split at takes <;>
    · next failed =>
      cases takes
      simp only [failed, List.append_assoc, Bool.false_eq_true, if_true, if_false]

end Checker

namespace Compiler

variable {compiler after : Compiler} {log logged : TransactionLog} {transaction fed : Transaction}

/-- A transaction that collects can always be fed. -/
theorem feed_adds (compiler : Compiler) (collecting : transaction.state = .collecting)
    (text : String) :
    ∃ outcome fed checker reports,
      compiler.feed transaction text = .ok (outcome, fed, { compiler with checker }) ∧
      compiler.checker.Adds transaction.id reports checker ∧ fed.id = transaction.id ∧
      fed.state = .collecting := by
  obtain ⟨outcome, fed, checker, reports, takes, adds, -⟩ :=
    compiler.checker.feed_adds collecting text
  obtain ⟨continues, -⟩ := Checker.feed_reads takes
  refine ⟨outcome, fed, checker, reports, ?_, adds, continues.id, continues.state⟩
  simp only [feed, takes]

/-- So can it be with several chunks, and all of them add to the checker. -/
theorem feedAll_adds (compiler : Compiler) (collecting : transaction.state = .collecting)
    (chunks : List String) :
    ∃ outcomes fed checker reports,
      compiler.feedAll transaction chunks = .ok (outcomes, fed, { compiler with checker }) ∧
      compiler.checker.Adds transaction.id reports checker ∧ fed.id = transaction.id := by
  induction chunks generalizing compiler transaction with
  | nil => exact ⟨[], transaction, compiler.checker, [], rfl, .refl _, rfl⟩
  | cons chunk rest inductionHypothesis =>
    obtain ⟨outcome, between, checker, reports, takes, adds, sameId, stillCollecting⟩ :=
      compiler.feed_adds collecting chunk
    obtain ⟨outcomes, fed, last, others, rests, addsMore, sameLast⟩ :=
      inductionHypothesis { compiler with checker } stillCollecting
    rw [sameId] at addsMore sameLast
    refine ⟨outcome :: outcomes, fed, last, reports ++ others, ?_, adds.trans addsMore, sameLast⟩
    simp only [feedAll, takes, bind, Except.bind, rests, pure, Except.pure]

/-! ## Dropped scopes -/

/-- Runs a scope that its caller drops. Nobody takes its reports. -/
def dropScope (compiler : Compiler) (log : TransactionLog) (options : TransactionOptions)
    (chunks : List String) :
    Except Misuse (List FeedOutcome × Transaction × Compiler × TransactionLog) := do
  let (begun, allocated) ← compiler.begin log options
  let (outcomes, transaction, fed) ← compiler.feedAll begun chunks
  return (outcomes, transaction, fed.rollBack transaction, allocated)

/-- A scope that is rolled back, and whose reports are taken then, is a dropped scope up to this. -/
theorem runScope_rollBack (compiler : Compiler) (log : TransactionLog)
    (options : TransactionOptions) (chunks : List String) :
    compiler.runScope log options chunks .rollBack =
      (compiler.dropScope log options chunks).map fun (outcomes, transaction, dropped, allocated) =>
        (⟨outcomes, transaction, dropped.checker.diagnostics⟩, dropped.taken, allocated) := by
  simp only [runScope, dropScope, bind, Except.bind]
  cases compiler.begin log options with
  | error misuse => rfl
  | ok first =>
    obtain ⟨begun, allocated⟩ := first
    dsimp only
    cases compiler.feedAll begun chunks <;> rfl

/-- Dropping a scope is a course of steps. -/
theorem moves_dropScope {dropped : Compiler} {allocated : TransactionLog}
    {options : TransactionOptions} {chunks : List String} {outcomes : List FeedOutcome}
    (drops : compiler.dropScope log options chunks =
      .ok (outcomes, transaction, dropped, allocated)) (events : List Event) :
    ∃ more, ReflTransGen Moves ⟨compiler, log, none, events⟩ ⟨dropped, allocated, none, more⟩ := by
  simp only [dropScope, bind, Except.bind] at drops
  cases begins : compiler.begin log options with
  | error misuse =>
    rw [begins] at drops
    cases drops
  | ok first =>
    obtain ⟨begun, begunLog⟩ := first
    simp only [begins] at drops
    cases takes : compiler.feedAll begun chunks with
    | error misuse =>
      rw [takes] at drops
      cases drops
    | ok second =>
      obtain ⟨_, fed, between⟩ := second
      simp only [takes] at drops
      cases drops
      obtain ⟨more, course⟩ := moves_feedAll takes allocated events
      exact ⟨more, .tail (.head (.begun begins) course) .rolledBack⟩

/-! ## Compilers in whatever situation -/

/-- What holds of a compiler in every situation: its table and its log are in order, and they know
no number that was not given out. -/
structure Steady (compiler : Compiler) (log : TransactionLog) : Prop where
  table : compiler.checker.table.WellFormed
  below : compiler.checker.table.Below log.nextNumber
  units : ∀ entry ∈ compiler.checker.units, entry.1.number < log.nextNumber
  logged : log.WellFormed

namespace Steady

theorem new : Steady .new .empty :=
  ⟨wellFormed_new.checker.table, wellFormed_new.checker.below, wellFormed_new.checker.units,
    wellFormed_new.logged⟩

/-- Without a transaction that waits, and once its reports are taken, it is well formed. -/
theorem wellFormed (steady : Steady compiler log) (unopened : compiler.opened = none) :
    compiler.taken.WellFormed log where
  checker := ⟨steady.table, steady.below, steady.units, rfl⟩
  logged := steady.logged
  opened _ isOpen := by cases unopened.symm.trans isOpen

theorem allocate (steady : Steady compiler log) : Steady compiler log.allocate.2 where
  table := steady.table
  below record member :=
    ⟨Nat.lt_succ_of_lt (steady.below record member).owner,
      fun id defined => Nat.lt_succ_of_lt ((steady.below record member).definition id defined)⟩
  units entry member := Nat.lt_succ_of_lt (steady.units entry member)
  logged := wellFormed_of_entries steady.logged rfl (Nat.le_succ _)

/-- Only the table and the units matter. -/
theorem of_checker (steady : Steady compiler log) (after : Compiler)
    (table : after.checker.table = compiler.checker.table)
    (units : ∀ entry ∈ after.checker.units, entry ∈ compiler.checker.units) : Steady after log where
  table := table ▸ steady.table
  below := table ▸ steady.below
  units entry member := steady.units entry (units entry member)
  logged := steady.logged

theorem adds (steady : Steady compiler log) {reports : List Diagnostic} {id : TransactionId}
    (begun : id.number < log.nextNumber) (adds : compiler.checker.Adds id reports after.checker) :
    Steady after log where
  table := adds.wellFormed steady.table
  below := adds.below _ steady.table begun steady.below
  units entry member := (adds.keys entry member).elim (steady.units entry) fun same => same ▸ begun
  logged := steady.logged

theorem rollBack (steady : Steady compiler log) (transaction : Transaction) :
    Steady (compiler.rollBack transaction) log where
  table := steady.table.forget _
  below := below_forget steady.below _
  units entry member := steady.units entry (mem_of_mem_dropUnit member)
  logged := steady.logged

theorem commit (steady : Steady compiler log) (entry : Transaction)
    (begun : entry.id.number < log.nextNumber) (committed : entry.state = .committed) :
    Steady { compiler with checker := compiler.checker.commit entry.id }
      { log with entries := TransactionLog.place entry log.entries } where
  table := steady.table.commit _
  below := below_commit steady.below _
  units := steady.units
  logged :=
    { ascending := TransactionLog.ascending_place _ steady.logged.ascending
      allocated := fun other member => by
        rcases TransactionLog.mem_place member with rfl | old
        · exact begun
        · exact steady.logged.allocated other old
      committed := fun other member => by
        rcases TransactionLog.mem_place member with rfl | old
        · exact committed
        · exact steady.logged.committed other old }

theorem feed (steady : Steady compiler log) (begun : transaction.id.number < log.nextNumber)
    {text : String} {outcome : FeedOutcome}
    (takes : compiler.feed transaction text = .ok (outcome, fed, after)) : Steady after log := by
  unfold Compiler.feed at takes
  split at takes
  · cases takes
  · next step =>
    cases takes
    obtain ⟨_, _, _, reports, again, adds, -⟩ :=
      compiler.checker.feed_adds (Checker.collecting_of_feed step) text
    cases step.symm.trans again
    exact steady.adds begun adds

theorem settle (steady : Steady compiler log) (begun : transaction.id.number < log.nextNumber)
    (collecting : transaction.state = .collecting) {outcome : FeedOutcome}
    {reports : List Diagnostic} {verdict : CompileVerdict}
    (settles : compiler.settle log transaction outcome reports = .ok (verdict, after, logged)) :
    Steady after logged := by
  cases outcome with
  | incomplete =>
    cases settles
    exact steady.of_checker _ rfl fun _ => id
  | rejected =>
    cases settles
    exact steady.rollBack transaction
  | complete =>
    rw [settle_complete _ _ _ collecting] at settles
    split at settles
    · cases settles
      exact steady.rollBack transaction
    · cases settles
      exact steady.commit { transaction with state := .committed, diagnostics := reports } begun rfl

theorem compile (steady : Steady compiler log) {request : CompileRequest} {report : CompileReport}
    (chosen : (compiler.transactionFor log request).1.state = .collecting)
    (begun : (compiler.transactionFor log request).1.id.number <
      (compiler.transactionFor log request).2.nextNumber)
    (compiled : compiler.compile log request = .ok (report, after, logged)) :
    Steady after logged := by
  have allocated : Steady compiler (compiler.transactionFor log request).2 := by
    unfold transactionFor
    cases compiler.opened with
    | some transaction => exact steady
    | none => exact steady.allocate
  unfold Compiler.compile at compiled
  generalize compiler.transactionFor log request = found at chosen begun allocated compiled
  obtain ⟨transaction, allocatedLog⟩ := found
  dsimp only at chosen begun allocated compiled
  have unopened : Steady { compiler with opened := none } allocatedLog :=
    allocated.of_checker _ rfl fun _ => id
  cases takes : Compiler.feed { compiler with opened := none } transaction request.text with
  | error misuse =>
    rw [takes] at compiled
    cases compiled
  | ok step =>
    obtain ⟨outcome, fed, checked⟩ := step
    obtain ⟨continues, -, -⟩ := feed_reads takes
    have fedSteady := unopened.feed begun takes
    simp only [takes, bind, Except.bind] at compiled
    split at compiled
    · cases compiled
    · next settles =>
      cases compiled
      have taken := fedSteady.of_checker
        { checked with checker := checked.checker.takeDiagnostics.2 } rfl fun _ => id
      exact taken.settle (continues.id ▸ begun) continues.state settles

theorem perform (steady : Steady compiler log) {events : List Event}
    (explained : Explained ⟨compiler, log, none, events⟩) {operation : Operation} {answer : Answer}
    (performs : compiler.perform log operation = .ok (answer, after, logged)) :
    Steady after logged := by
  cases operation with
  | compile request =>
    simp only [Compiler.perform, bind, Except.bind] at performs
    cases compiled : compiler.compile log request with
    | error misuse =>
      rw [compiled] at performs
      cases performs
    | ok result =>
      rw [compiled] at performs
      cases performs
      obtain ⟨-, pending⟩ :=
        explained.transactionFor (Prod.eta (compiler.transactionFor log request)).symm
      exact steady.compile pending.collecting pending.begun compiled
  | abandonOpen =>
    cases performs
    unfold abandonOpen
    split
    · exact steady
    · exact (steady.of_checker { compiler with opened := none } rfl fun _ => id).rollBack _
  | unload id =>
    cases performs
    split
    · exact steady
    · exact ⟨steady.table.forget _, below_forget steady.below _,
        fun entry member => steady.units entry (mem_of_mem_dropUnit member), steady.logged.erase id⟩
  | collect id =>
    cases performs
    refine steady.of_checker _ ?_ fun entry member => ?_
    · split <;> rfl
    · split at member
      · exact mem_of_mem_dropUnit member
      · exact member

theorem moves {before after : Situation} (steady : Steady before.compiler before.log)
    (explained : Explained before) (moves : Moves before after) :
    Steady after.compiler after.log := by
  cases moves with
  | performed performs => exact steady.perform explained performs
  | reported => exact steady.of_checker _ rfl fun _ => id
  | begun begins =>
    unfold begin at begins
    split at begins
    · cases begins
    · cases begins
      exact steady.allocate
  | fed takes =>
    obtain ⟨pending, -⟩ := explained.scope _ rfl
    exact steady.feed pending.begun takes
  | @committed compiler _ log _ _ transaction commits =>
    obtain ⟨pending, -⟩ := explained.scope _ rfl
    rw [commit_collecting compiler log pending.collecting] at commits
    cases commits
    exact steady.commit { transaction with state := .committed } pending.begun rfl
  | keptOpen => exact steady.of_checker _ rfl fun _ => id
  | rolledBack => exact steady.rollBack _

end Steady

theorem steady_of_moves {situation : Situation} (course : ReflTransGen Moves .new situation) :
    Steady situation.compiler situation.log := by
  induction course with
  | refl => exact .new
  | tail before moves inductionHypothesis =>
    exact inductionHypothesis.moves (explained_of_moves before) moves

/-! ## Requests while reports wait -/

/-- A request is answered as it would be if nothing waited, up to what the waiting reports make of
the answer. If they spoil it, its transaction is undone. -/
theorem compile_waiting {request : CompileRequest} {report : CompileReport}
    (unopened : compiler.opened = none)
    (compiled : compiler.taken.compile log request = .ok (report, after, logged)) :
    ∃ later laterLog,
      compiler.compile log request =
        .ok (report.burdened (notable compiler.checker.diagnostics) request.options, later,
          laterLog) ∧
      (report.spoiledBy (notable compiler.checker.diagnostics) request.options = false →
        later = after) ∧
      (report.spoiledBy (notable compiler.checker.diagnostics) request.options = true →
        later.opened = none ∧ laterLog.entries = log.entries ∧
          (compiler.taken.WellFormed log → OnlyGapAdded compiler.checker later.checker)) ∧
      (notable compiler.checker.diagnostics = [] → laterLog = logged) := by
  obtain ⟨⟨table, units, waiting⟩, opened⟩ := compiler
  obtain rfl : opened = none := unopened
  -- Both requests read the text alike.
  obtain ⟨outcome, fed, checker, own, takes, adds, options⟩ :=
    (⟨table, units, []⟩ : Checker).feed_adds
      (rfl : (collecting log request "").state = .collecting) request.text
  obtain ⟨continues, -⟩ := Checker.feed_reads takes
  have waits := Checker.feed_waiting waiting takes
  rw [List.append_nil] at waits
  have undone (wellFormed : (⟨⟨table, units, waiting⟩, none⟩ : Compiler).taken.WellFormed log) :
      OnlyGapAdded ⟨table, units, waiting⟩ (checker.forget fed.id) := by
    have untouched : (⟨table, units, []⟩ : Checker).Untouched ⟨log.nextNumber⟩ :=
      wellFormed.checker.untouched (Nat.le_refl _)
    obtain ⟨gap, -⟩ := adds.forgotten untouched wellFormed.checker.table
    exact continues.id ▸ ⟨gap.wellFormed, gap.records, gap.units⟩
  simp only [compile, taken, transactionFor_unopened, feed, Checker.takeDiagnostics, takes, waits,
    bind, Except.bind, List.filter_append] at compiled ⊢
  cases outcome with
  | incomplete =>
    cases compiled
    exact ⟨_, _, rfl, fun _ => rfl, fun spoiled => (by cases spoiled), fun _ => rfl⟩
  | rejected =>
    cases compiled
    exact ⟨_, _, rfl, fun _ => rfl, fun spoiled => (by cases spoiled), fun _ => rfl⟩
  | complete =>
    have sameOptions : fed.options = request.options := options
    simp only [settle_complete _ _ _ continues.state, sameOptions, List.any_append] at compiled ⊢
    cases ownFatal : (checker.diagnostics.filter fun report => !report.isBenign).any fun report =>
        report.isFatal request.options.fatalWarnings with
    | true =>
      simp only [ownFatal, if_true, Bool.or_true] at compiled ⊢
      cases compiled
      exact ⟨_, _, rfl, fun _ => rfl, fun spoiled => (by cases spoiled), fun _ => rfl⟩
    | false =>
      simp only [ownFatal, Bool.or_false, Bool.false_eq_true, if_false] at compiled ⊢
      cases compiled
      cases othersFatal : (waiting.filter fun report => !report.isBenign).any fun report =>
          report.isFatal request.options.fatalWarnings with
      | true =>
        simp only [CompileReport.burdened, CompileReport.spoiledBy, notable, othersFatal, if_true,
          decide_true, Bool.and_true]
        refine ⟨_, _, rfl, fun safe => (by cases safe), fun _ => ⟨rfl, rfl, fun wellFormed => ?_⟩,
          fun nothing => ?_⟩
        · have gap := undone wellFormed
          exact ⟨gap.wellFormed, gap.records, gap.units⟩
        · rw [nothing] at othersFatal
          cases othersFatal
      | false =>
        simp only [CompileReport.burdened, CompileReport.spoiledBy, notable, othersFatal,
          Bool.false_eq_true, if_false, Bool.and_false]
        refine ⟨_, _, rfl, fun _ => rfl, fun spoiled => (by cases spoiled), fun nothing => ?_⟩
        rw [nothing, List.nil_append]

/-! ## Requests after a dropped scope -/

/-- Compilers that differ by a gap, a number and reports match once the reports are taken. -/
theorem taken_matches {dropped : Compiler} (wellFormed : compiler.taken.WellFormed log)
    (unopened : compiler.opened = none) (closed : dropped.opened = none)
    (gap : OnlyGapAdded compiler.checker dropped.checker) :
    dropped.taken.Matches (skipping compiler dropped log log.allocate.2) compiler.taken ∧
      log.allocate.2.Matches (skipping compiler dropped log log.allocate.2) log :=
  have takenClosed : dropped.taken.opened = none := closed
  matches_of_gap wellFormed unopened takenClosed ⟨gap.wellFormed, gap.records, gap.units⟩ rfl

/-- A compiler that differs from another by a gap, a number and reports answers like it, up to what
the reports make of the answer. -/
theorem compile_after_gap {dropped : Compiler} {reports : List Diagnostic}
    (wellFormed : compiler.taken.WellFormed log) (unopened : compiler.opened = none)
    (droppedWellFormed : dropped.taken.WellFormed log.allocate.2) (closed : dropped.opened = none)
    (gap : OnlyGapAdded compiler.checker dropped.checker)
    (waiting : dropped.checker.diagnostics = compiler.checker.diagnostics ++ reports)
    (request : CompileRequest) :
    ∃ report after logged taking later laterLog,
      compiler.compile log request = .ok (report, after, logged) ∧
      dropped.compile log.allocate.2
          ((skipping compiler dropped log log.allocate.2).request request) =
        .ok (taking, later, laterLog) ∧
      report.TakesMore (skipping compiler dropped log log.allocate.2) compiler.checker.diagnostics
        reports request.options taking ∧
      ∀ name, later.checker.lookup name =
        if report.spoiledBy (notable reports) request.options then compiler.checker.lookup name
        else (after.checker.lookup name).map
          (skipping compiler dropped log log.allocate.2).declaration := by
  have sameLookup := gap.lookup_eq wellFormed.checker.table
  obtain ⟨compilers, logs⟩ := taken_matches wellFormed unopened closed gap
  generalize skipping compiler dropped log log.allocate.2 = renumbering at compilers logs ⊢
  -- Without waiting reports both answer alike.
  obtain ⟨plain, plainLater, plainLaterLog, plainAfter, plainLogged, answers, answersToo, matched,
    -⟩ := compilers.compile logs droppedWellFormed wellFormed request
  obtain ⟨after, logged, compiled, unspoiled, spoiled, -⟩ :=
    compile_waiting unopened answers
  obtain ⟨later, laterLog, compiledToo, unspoiledToo, spoiledToo, -⟩ :=
    compile_waiting closed answersToo
  have sameOptions : (renumbering.request request).options = request.options := rfl
  rw [waiting, sameOptions] at compiledToo unspoiledToo spoiledToo
  refine ⟨_, after, logged, _, later, laterLog, compiled, compiledToo,
    CompileReport.takesMore_burdened renumbering _ reports request.options plain, fun name => ?_⟩
  rw [CompileReport.spoiledBy_burdened]
  have sameSpoils : (renumbering.report plain).spoiledBy
        (notable (compiler.checker.diagnostics ++ reports)) request.options =
      (plain.spoiledBy (notable compiler.checker.diagnostics) request.options ||
        plain.spoiledBy (notable reports) request.options) := by
    rw [notable_append]
    exact plain.spoiledBy_append _ _ _
  have sameName : compiler.checker.lookup name =
      (compiler.checker.lookup name).map renumbering.declaration := by
    have dropping := compilers.checker.lookup_eq name
    simp only [Checker.lookup] at dropping ⊢
    exact (congrArg _ (sameLookup name)).symm.trans dropping
  have undone : OnlyGapAdded dropped.checker later.checker →
      later.checker.lookup name = compiler.checker.lookup name := by
    intro laterGap
    simp only [Checker.lookup, laterGap.lookup_eq droppedWellFormed.checker.table, sameLookup]
  cases before : plain.spoiledBy (notable compiler.checker.diagnostics) request.options with
  | true =>
    obtain ⟨-, -, afterGap⟩ := spoiled before
    obtain ⟨-, -, laterGap⟩ := spoiledToo (by rw [sameSpoils, before, Bool.true_or])
    have sameAfter : after.checker.lookup name = compiler.checker.lookup name := by
      simp only [Checker.lookup, (afterGap wellFormed).lookup_eq wellFormed.checker.table]
    rw [Bool.not_true, Bool.false_and, if_neg Bool.false_ne_true, sameAfter, ← sameName]
    exact undone (laterGap droppedWellFormed)
  | false =>
    rw [Bool.not_false, Bool.true_and]
    cases more : plain.spoiledBy (notable reports) request.options with
    | true =>
      obtain ⟨-, -, laterGap⟩ := spoiledToo (by rw [sameSpoils, more, Bool.or_true])
      rw [if_pos rfl]
      exact undone (laterGap droppedWellFormed)
    | false =>
      obtain rfl := unspoiled before
      obtain rfl := unspoiledToo (by rw [sameSpoils, before, more, Bool.or_false])
      rw [if_neg Bool.false_ne_true]
      exact matched.checker.lookup_eq name

/-- A dropped scope is answered, and leaves forgotten records and its reports. -/
theorem dropScope_ok (steady : Steady compiler log) (unopened : compiler.opened = none)
    (options : TransactionOptions) (chunks : List String) :
    ∃ outcomes transaction dropped reports,
      compiler.dropScope log options chunks = .ok (outcomes, transaction, dropped, log.allocate.2) ∧
      dropped.opened = none ∧ OnlyGapAdded compiler.checker dropped.checker ∧
      dropped.checker.diagnostics = compiler.checker.diagnostics ++ reports := by
  have begins : compiler.begin log options =
      .ok (Transaction.new ⟨log.nextNumber⟩ options, log.allocate.2) := by
    simp only [begin, unopened]
    rfl
  obtain ⟨outcomes, transaction, checker, reports, takes, adds, sameId⟩ :=
    compiler.feedAll_adds
      (rfl : (Transaction.new ⟨log.nextNumber⟩ options).state = .collecting) chunks
  have drops : compiler.dropScope log options chunks =
      .ok (outcomes, transaction, { compiler with checker }.rollBack transaction,
        log.allocate.2) := by
    simp only [dropScope, begins, takes, bind, Except.bind, pure, Except.pure]
  have untouched : compiler.checker.Untouched ⟨log.nextNumber⟩ :=
    { records := ((steady.wellFormed unopened).checker.untouched (Nat.le_refl _)).records
      units := ((steady.wellFormed unopened).checker.untouched (Nat.le_refl _)).units }
  obtain ⟨gap, waiting⟩ := adds.forgotten untouched steady.table
  rw [← sameId] at gap waiting
  exact ⟨outcomes, transaction, _, reports, drops, unopened, gap, waiting⟩

/-- A dropped scope leaves its reports and nothing else: no declaration, no code and no entry in the
log. The next request is answered as without the scope, up to numbers, except that it tells those
reports, and that it fails instead of succeeding if one of them is fatal. So its answer is the same
exactly if there is nothing to tell. -/
theorem a_dropped_scope_leaves_its_reports {events : List Event}
    (course : ReflTransGen Moves .new ⟨compiler, log, none, events⟩)
    (unopened : compiler.opened = none) (options : TransactionOptions) (chunks : List String) :
    ∃ outcomes transaction dropped allocated reports,
      compiler.dropScope log options chunks = .ok (outcomes, transaction, dropped, allocated) ∧
      dropped.opened = none ∧ allocated.entries = log.entries ∧
      dropped.checker.units = compiler.checker.units ∧
      (∀ name, dropped.checker.lookup name = compiler.checker.lookup name) ∧
      (∀ name, dropped.checker.functionInfo? name = compiler.checker.functionInfo? name) ∧
      dropped.checker.table.liveCount = compiler.checker.table.liveCount ∧
      dropped.checker.diagnostics = compiler.checker.diagnostics ++ reports ∧
      ∃ renumbering : Renumbering,
        renumbering.firstTransaction = log.nextNumber ∧
        renumbering.skippedTransactions = 1 ∧
        renumbering.firstDeclaration = compiler.checker.table.records.length ∧
        ∀ request, ∃ report after logged taking later laterLog,
          compiler.compile log request = .ok (report, after, logged) ∧
          dropped.compile allocated (renumbering.request request) = .ok (taking, later, laterLog) ∧
          report.TakesMore renumbering compiler.checker.diagnostics reports request.options taking ∧
          (taking = renumbering.report report ↔ notable reports = []) ∧
          ∀ name, later.checker.lookup name =
            if report.spoiledBy (notable reports) request.options then compiler.checker.lookup name
            else (after.checker.lookup name).map renumbering.declaration := by
  have steady : Steady compiler log := steady_of_moves course
  obtain ⟨outcomes, transaction, dropped, reports, drops, closed, gap, waiting⟩ :=
    dropScope_ok steady unopened options chunks
  obtain ⟨_, dropCourse⟩ := moves_dropScope drops events
  have wellFormed := steady.wellFormed unopened
  have droppedWellFormed := (steady_of_moves (course.trans dropCourse)).wellFormed closed
  have sameLookup := gap.lookup_eq wellFormed.checker.table
  refine ⟨outcomes, transaction, dropped, log.allocate.2, reports, drops, closed, rfl, gap.units,
    fun name => ?_, fun name => ?_,
    (taken_matches wellFormed unopened closed gap).1.checker.table.liveCount_eq, waiting,
    skipping compiler dropped log log.allocate.2, rfl, ?_, rfl, fun request => ?_⟩
  · simp only [Checker.lookup, sameLookup]
  · simp only [Checker.functionInfo?, sameLookup]
  · simp [skipping, TransactionLog.allocate]
  · obtain ⟨report, after, logged, taking, later, laterLog, compiled, compiledToo, more, names⟩ :=
      compile_after_gap wellFormed unopened droppedWellFormed closed gap waiting request
    exact ⟨report, after, logged, taking, later, laterLog, compiled, compiledToo, more,
      more.same_iff, names⟩

/-- After a refused text in a dropped scope, the next text is refused although it is in order. -/
theorem a_dropped_scope_spoils_the_next_request :
    ∃ outcomes transaction dropped allocated reports report after logged taking later laterLog,
      Compiler.new.dropScope .empty .declaration ["int x = y;"] =
        .ok (outcomes, transaction, dropped, allocated) ∧
      Compiler.new.compile .empty ⟨"int z;", .declaration, none, none⟩ =
        .ok (report, after, logged) ∧
      dropped.compile allocated ⟨"int z;", .declaration, none, none⟩ =
        .ok (taking, later, laterLog) ∧
      report.verdict = .success ∧ taking.verdict = .failure ∧ taking.diagnostics = notable reports ∧
      reports.map Diagnostic.code = [.undeclaredIdentifier] := by
  let request : CompileRequest := ⟨"int z;", .declaration, none, none⟩
  obtain ⟨outcomes, transaction, dropped, allocated, reports, drops, -, -, -, -, -, -, waiting, _,
    -, -, -, requests⟩ :=
    a_dropped_scope_leaves_its_reports (.refl : ReflTransGen Moves .new ⟨.new, .empty, none, []⟩)
      rfl .declaration ["int x = y;"]
  obtain ⟨report, after, logged, taking, later, laterLog, compiled, compiledToo, more, -, -⟩ :=
    requests request
  have leaves : (Compiler.new.dropScope .empty .declaration ["int x = y;"]).toOption.map
      (fun result => result.2.2.1.checker.diagnostics.map Diagnostic.code) =
        some [.undeclaredIdentifier] := by decide +kernel
  have succeeds : (Compiler.new.compile .empty request).toOption.map
      (fun answer => (answer.1.verdict, answer.1.diagnostics)) = some (.success, []) := by
    decide +kernel
  have fails : ((Compiler.new.dropScope .empty .declaration ["int x = y;"]).toOption.bind
      fun result => (result.2.2.1.compile result.2.2.2 request).toOption.map
        fun answer => answer.1.verdict) = some .failure := by decide +kernel
  rw [drops] at leaves fails
  rw [compiled] at succeeds
  simp only [Except.toOption, Option.bind_some] at fails
  rw [show dropped.compile allocated request = _ from compiledToo] at fails
  obtain ⟨success, silent⟩ := Prod.mk.inj (Option.some.inj succeeds)
  obtain ⟨own, plain, told⟩ := more.diagnostics
  obtain rfl : own = [] := plain.symm.trans silent
  refine ⟨outcomes, transaction, dropped, allocated, reports, report, after, logged, taking, later,
    laterLog, drops, compiled, compiledToo, success, Option.some.inj fails, ?_, ?_⟩
  · exact told.trans (List.append_nil _)
  · have same : dropped.checker.diagnostics = reports := waiting
    exact same ▸ Option.some.inj leaves

end Compiler

end IncrementalC
