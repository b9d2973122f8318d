import IncrementalC.Compilation.Compiler
import IncrementalC.Proofs.Analysis.Extension
import IncrementalC.Proofs.Transaction.Log

/-!
Contract: compiling never misuses the system.

Between requests a compiler is well formed: its table and the log are, every number in
them was given out, and a transaction that waits for more input has declared nothing
yet. A request to a well-formed compiler has one of three results, by what the text of
its transaction reads as.

Owns: well-formed compilers, the transaction and the result of a request, and that every
request and every removal keeps compilers well formed.

Does not own: what is reported about a text.
-/

namespace IncrementalC

/-! ## Well-formed compilers -/

/-- The transaction has left nothing in the checker. -/
structure Checker.Untouched (checker : Checker) (id : TransactionId) : Prop where
  records : ∀ record ∈ checker.table.records, record.owner ≠ id
  units : ∀ entry ∈ checker.units, entry.1 ≠ id

/-- All that the checker holds belongs to transactions with numbers below `limit`, and
no report waits to be taken. -/
structure Checker.Settled (checker : Checker) (limit : Nat) : Prop where
  table : checker.table.WellFormed
  below : checker.table.Below limit
  units : ∀ entry ∈ checker.units, entry.1.number < limit
  reported : checker.diagnostics = []

/-- The transaction collects text and has declared nothing. -/
structure Transaction.Collecting (transaction : Transaction) (checker : Checker)
    (log : TransactionLog) : Prop where
  state : transaction.state = .collecting
  begun : transaction.id.number < log.nextNumber
  declarations : transaction.declarations = []
  untouched : checker.Untouched transaction.id
  unlogged : log.get? transaction.id = none

/-- What holds of a compiler and its log between requests. -/
structure Compiler.WellFormed (compiler : Compiler) (log : TransactionLog) : Prop where
  checker : compiler.checker.Settled log.nextNumber
  logged : log.WellFormed
  opened : ∀ transaction ∈ compiler.opened, transaction.Collecting compiler.checker log

namespace Checker

theorem Settled.mono {checker : Checker} {limit larger : Nat} (settled : checker.Settled limit)
    (le : limit ≤ larger) : checker.Settled larger where
  table := settled.table
  below record member :=
    ⟨Nat.lt_of_lt_of_le (settled.below record member).owner le,
      fun id defined => Nat.lt_of_lt_of_le ((settled.below record member).definition id defined) le⟩
  units entry member := Nat.lt_of_lt_of_le (settled.units entry member) le
  reported := settled.reported

/-- A transaction that is not begun yet has left nothing. -/
theorem Settled.untouched {checker : Checker} {limit : Nat} (settled : checker.Settled limit)
    {id : TransactionId} (unbegun : limit ≤ id.number) : checker.Untouched id where
  records record member := by
    rintro rfl
    exact Nat.not_lt.mpr unbegun (settled.below record member).owner
  units entry member := by
    rintro rfl
    exact Nat.not_lt.mpr unbegun (settled.units entry member)

end Checker

theorem TransactionLog.WellFormed.get?_unbegun {log : TransactionLog}
    (wellFormed : log.WellFormed) {id : TransactionId} (unbegun : log.nextNumber ≤ id.number) :
    log.get? id = none := by
  rw [TransactionLog.get?_eq_none_iff]
  rintro transaction member rfl
  exact Nat.not_lt.mpr unbegun (wellFormed.allocated transaction member)

/-- The transaction with more text. -/
def Transaction.continuedBy (transaction : Transaction) (text : String) : Transaction :=
  { transaction with source := Input.joinContinuation transaction.source text }

/-- The transaction as it is logged, with the declarations found in its text. -/
def Transaction.committedWith (transaction : Transaction) (declarations : List DeclarationId)
    (diagnostics : List Diagnostic) : Transaction :=
  { transaction with
    state := .committed, declarations := transaction.declarations ++ declarations, diagnostics }

theorem Transaction.Collecting.continuedBy {transaction : Transaction} {checker : Checker}
    {log : TransactionLog} (collecting : transaction.Collecting checker log) (text : String) :
    (transaction.continuedBy text).Collecting checker log :=
  ⟨collecting.state, collecting.begun, collecting.declarations, collecting.untouched,
    collecting.unlogged⟩

namespace Compiler

theorem wellFormed_new : WellFormed .new .empty where
  checker := ⟨DeclarationTable.wellFormed_empty, fun _ member => absurd member List.not_mem_nil,
    fun _ member => absurd member List.not_mem_nil, rfl⟩
  logged := TransactionLog.wellFormed_empty
  opened _ absent := absurd absent (by simp [new])

/-! ## The transaction of a request -/

/-- The transaction that is begun for a request, once it has collected `text`. -/
def collecting (log : TransactionLog) (request : CompileRequest) (text : String) : Transaction where
  id := ⟨log.nextNumber⟩
  state := .collecting
  declarations := []
  options := request.options
  origin := request.origin
  source := text
  entry := request.entry
  diagnostics := []

/-- A first request is compiled in a transaction of its own. -/
theorem transactionFor_unopened {compiler : Compiler} {log : TransactionLog}
    (unopened : compiler.opened = none) (request : CompileRequest) :
    compiler.transactionFor log request = (collecting log request "", log.allocate.2) := by
  simp only [transactionFor, unopened]
  rfl

theorem joinContinuation_empty (text : String) : Input.joinContinuation "" text = text :=
  String.ofList_toList

/-- The compiler once the reports that wait have been taken. A request leaves none behind. -/
def taken (compiler : Compiler) : Compiler :=
  { compiler with checker := compiler.checker.takeDiagnostics.2 }

theorem taken_of_reported {compiler : Compiler} (reported : compiler.checker.diagnostics = []) :
    compiler.taken = compiler := by
  obtain ⟨⟨table, units, diagnostics⟩, opened⟩ := compiler
  obtain rfl : diagnostics = [] := reported
  rfl

/-! ## The result of a request -/

/-- The checker after a transaction was rolled back whose text was never analysed. -/
def abandonedChecker (checker : Checker) (id : TransactionId) : Checker :=
  ⟨(checker.table.forget id).2, Checker.dropUnit id checker.units, []⟩

/-- What becomes of a transaction by what its text reads as. -/
def settleReading (checker : Checker) (log : TransactionLog) (transaction : Transaction) :
    Except SourceError (List Syntax.Item) → CompileReport × Compiler × TransactionLog
  | .error .incomplete =>
    (⟨.moreInputExpected, transaction.id, []⟩, ⟨checker, some transaction⟩, log)
  | .error (.invalid diagnostic) =>
    (⟨.failure, transaction.id, [diagnostic].filter fun report => !report.isBenign⟩,
      ⟨abandonedChecker checker transaction.id, none⟩, log)
  | .ok items =>
    let analysis := analyze items checker.table transaction.id
    let diagnostics := analysis.diagnostics.filter fun report => !report.isBenign
    if analysis.hasErrors || diagnostics.any fun report =>
        report.isFatal transaction.options.fatalWarnings then
      (⟨.failure, transaction.id, diagnostics⟩,
        ⟨abandonedChecker { checker with table := analysis.table } transaction.id, none⟩, log)
    else
      (⟨.success, transaction.id, diagnostics⟩,
        ⟨⟨(analysis.table.commit transaction.id).2,
            (transaction.id, analysis.unit) :: Checker.dropUnit transaction.id checker.units, []⟩,
          none⟩,
        { log with
          entries := TransactionLog.place
            (transaction.committedWith analysis.declarations diagnostics) log.entries })

theorem addDeclarations_collecting (transaction : Transaction)
    (collecting : transaction.state = .collecting) (declarations : List DeclarationId) :
    transaction.addDeclarations declarations =
      .ok { transaction with declarations := transaction.declarations ++ declarations } := by
  induction declarations generalizing transaction with
  | nil => simp [Transaction.addDeclarations]
  | cons head tail inductionHypothesis =>
    have extended : transaction.addDeclaration head =
        .ok { transaction with declarations := transaction.declarations ++ [head] } :=
      if_pos collecting
    simp only [Transaction.addDeclarations, extended]
    have rest := inductionHypothesis
      { transaction with declarations := transaction.declarations ++ [head] } collecting
    rw [rest]
    simp only [List.append_assoc, List.singleton_append]

theorem dropUnit_cons_dropUnit (id : TransactionId) (unit : CodeUnit)
    (units : List (TransactionId × CodeUnit)) :
    Checker.dropUnit id ((id, unit) :: Checker.dropUnit id units) = Checker.dropUnit id units := by
  simp [Checker.dropUnit]

/-- A transaction without errors is committed unless a warning is fatal. -/
theorem settle_complete (compiler : Compiler) (log : TransactionLog) (transaction : Transaction)
    (collecting : transaction.state = .collecting) (diagnostics : List Diagnostic) :
    compiler.settle log transaction .complete diagnostics =
      .ok (if diagnostics.any fun report => report.isFatal transaction.options.fatalWarnings then
          (.failure, compiler.rollBack transaction, log)
        else
          (.success, { compiler with checker := compiler.checker.commit transaction.id },
            { log with
              entries := TransactionLog.place
                { transaction with state := .committed, diagnostics } log.entries })) := by
  obtain ⟨id, state, declarations, options, origin, source, entry, kept⟩ := transaction
  obtain rfl : state = .collecting := collecting
  simp only [settle]
  generalize (diagnostics.any fun report => report.isFatal options.fatalWarnings) = fatal
  cases fatal <;> rfl

/-- A request is answered by what the whole text of its transaction reads as. -/
theorem compile_eq {compiler : Compiler} {log allocated : TransactionLog}
    {request : CompileRequest} {transaction : Transaction}
    (chosen : compiler.transactionFor log request = (transaction, allocated))
    (collecting : transaction.state = .collecting)
    (reported : compiler.checker.diagnostics = []) :
    compiler.compile log request =
      .ok (settleReading compiler.checker allocated (transaction.continuedBy request.text)
        (Syntax.parseProgram (transaction.continuedBy request.text).source)) := by
  obtain ⟨⟨table, units, diagnostics⟩, opened⟩ := compiler
  obtain ⟨id, state, declarations, options, origin, source, entry, kept⟩ := transaction
  obtain rfl : diagnostics = [] := reported
  obtain rfl : state = .collecting := collecting
  let extended : Transaction :=
    ⟨id, .collecting, declarations, options, origin, Input.joinContinuation source request.text,
      entry, kept⟩
  change _ = Except.ok (settleReading ⟨table, units, []⟩ allocated extended
    (Syntax.parseProgram extended.source))
  simp only [compile, chosen, feed, Checker.feed, Transaction.appendSource, if_true]
  cases reading : Syntax.parseProgram extended.source with
  | error problem => cases problem <;> rfl
  | ok items =>
    have declared := addDeclarations_collecting extended rfl (analyze items table id).declarations
    simp only [Checker.record, declared, settleReading, extended]
    generalize analyze items table id = analysis
    cases failed : analysis.hasErrors with
    | true => rfl
    | false =>
      have settled := settle_complete
        ⟨⟨analysis.table, (id, analysis.unit) :: Checker.dropUnit id units, []⟩, none⟩ allocated
        ⟨id, .collecting, declarations ++ analysis.declarations, options, origin,
          Input.joinContinuation source request.text, entry, kept⟩ rfl
        (analysis.diagnostics.filter fun report => !report.isBenign)
      simp only [Bool.false_or, Bool.false_eq_true, if_false, bind, Except.bind, pure,
        Except.pure, Checker.takeDiagnostics, List.nil_append, settled]
      split
      · simp only [rollBack, Checker.forget, dropUnit_cons_dropUnit, abandonedChecker]
      · rfl

/-! ## Requests keep compilers well formed -/

theorem transactionFor_collecting {compiler : Compiler} {log : TransactionLog}
    (wellFormed : compiler.WellFormed log) (request : CompileRequest) :
    (compiler.transactionFor log request).1.Collecting compiler.checker
      (compiler.transactionFor log request).2 := by
  cases waiting : compiler.opened with
  | some transaction =>
    simp only [transactionFor, waiting]
    exact wellFormed.opened transaction waiting
  | none =>
    simp only [transactionFor, waiting]
    exact
      { state := rfl
        begun := Nat.lt_succ_self _
        declarations := rfl
        untouched := wellFormed.checker.untouched (Nat.le_refl _)
        unlogged := wellFormed.logged.get?_unbegun (Nat.le_refl _) }

/-- Choosing the transaction of a request gives out at most one number. -/
theorem transactionFor_log (compiler : Compiler) (log : TransactionLog)
    (request : CompileRequest) :
    (compiler.transactionFor log request).2.entries = log.entries ∧
      log.nextNumber ≤ (compiler.transactionFor log request).2.nextNumber := by
  unfold transactionFor
  cases compiler.opened with
  | some transaction => exact ⟨rfl, Nat.le_refl _⟩
  | none => exact ⟨rfl, Nat.le_succ _⟩

theorem wellFormed_of_entries {log longer : TransactionLog} (wellFormed : log.WellFormed)
    (sameEntries : longer.entries = log.entries) (le : log.nextNumber ≤ longer.nextNumber) :
    longer.WellFormed where
  ascending := sameEntries ▸ wellFormed.ascending
  allocated transaction member :=
    Nat.lt_of_lt_of_le (wellFormed.allocated transaction (sameEntries ▸ member)) le
  committed transaction member := wellFormed.committed transaction (sameEntries ▸ member)

theorem below_map {table changed : DeclarationTable} {limit : Nat}
    {change : DeclarationRecord → DeclarationRecord}
    (records : changed.records = table.records.map change)
    (keepsOwner : ∀ record, (change record).owner = record.owner)
    (keepsKind : ∀ record, (change record).kind = record.kind) (below : table.Below limit) :
    changed.Below limit := by
  intro record member
  rw [records] at member
  obtain ⟨original, originalMember, rfl⟩ := List.mem_map.mp member
  obtain ⟨owner, definition⟩ := below original originalMember
  exact ⟨by rw [keepsOwner]; exact owner, by rw [keepsKind]; exact definition⟩

theorem below_forget {table : DeclarationTable} {limit : Nat} (below : table.Below limit)
    (owner : TransactionId) : (table.forget owner).2.Below limit :=
  below_map (DeclarationTable.forget_records table owner) (DeclarationTable.owner_hidden owner)
    (DeclarationTable.kind_hidden owner) below

theorem below_commit {table : DeclarationTable} {limit : Nat} (below : table.Below limit)
    (owner : TransactionId) : (table.commit owner).2.Below limit :=
  below_map (DeclarationTable.commit_records table owner) (DeclarationTable.owner_shown owner)
    (DeclarationTable.kind_shown owner) below

theorem mem_of_mem_dropUnit {id : TransactionId} {units : List (TransactionId × CodeUnit)}
    {entry : TransactionId × CodeUnit} (member : entry ∈ Checker.dropUnit id units) :
    entry ∈ units :=
  (List.mem_filter.mp member).1

/-! ## Transactions that have left nothing -/

/-- Forgetting a transaction that has left nothing changes nothing. -/
theorem forget_untouched {records : List DeclarationRecord} {id : TransactionId}
    (untouched : ∀ record ∈ records, record.owner ≠ id) :
    records.map (DeclarationTable.hidden id) = records :=
  (List.map_congr_left fun record member =>
    DeclarationTable.hidden_of_owner_ne (untouched record member)).trans (List.map_id records)

theorem commit_untouched {records : List DeclarationRecord} {id : TransactionId}
    (untouched : ∀ record ∈ records, record.owner ≠ id) :
    records.map (DeclarationTable.shown id) = records :=
  (List.map_congr_left fun record member =>
    DeclarationTable.shown_of_owner_ne (untouched record member)).trans (List.map_id records)

theorem dropUnit_untouched {units : List (TransactionId × CodeUnit)} {id : TransactionId}
    (untouched : ∀ entry ∈ units, entry.1 ≠ id) : Checker.dropUnit id units = units :=
  List.filter_eq_self.mpr fun entry member => by simpa using untouched entry member

theorem settled_abandonedChecker (checker : Checker) {limit : Nat}
    (table : checker.table.WellFormed) (below : checker.table.Below limit)
    (units : ∀ entry ∈ checker.units, entry.1.number < limit) (id : TransactionId) :
    (abandonedChecker checker id).Settled limit where
  table := table.forget id
  below := below_forget below id
  units entry member := units entry (mem_of_mem_dropUnit member)
  reported := rfl

/-- What an analysis leaves is settled once its transaction is. -/
theorem analyze_settled {checker : Checker} {limit : Nat} (settled : checker.Settled limit)
    (items : List Syntax.Item) {id : TransactionId} (begun : id.number < limit) :
    (analyze items checker.table id).table.WellFormed ∧
      (analyze items checker.table id).table.Below limit := by
  have extension := Analysis.analyze_extends items checker.table id
  exact ⟨extension.wellFormed settled.table,
    extension.below limit settled.table begun settled.below⟩

theorem report_settleReading (checker : Checker) (log : TransactionLog) (transaction : Transaction)
    (reading : Except SourceError (List Syntax.Item)) :
    (settleReading checker log transaction reading).1.transaction = transaction.id := by
  cases reading with
  | error error =>
    cases error with
    | incomplete => rfl
    | invalid diagnostic => rfl
  | ok items =>
    simp only [settleReading]
    split <;> rfl

theorem settleReading_wellFormed {checker : Checker} {log : TransactionLog}
    {transaction : Transaction} (settled : checker.Settled log.nextNumber)
    (logged : log.WellFormed) (collecting : transaction.Collecting checker log)
    (reading : Except SourceError (List Syntax.Item)) :
    (settleReading checker log transaction reading).2.1.WellFormed
      (settleReading checker log transaction reading).2.2 := by
  cases reading with
  | error error =>
    cases error with
    | incomplete =>
      refine ⟨settled, logged, ?_⟩
      intro waiting kept
      obtain rfl := Option.some.inj kept
      exact collecting
    | invalid diagnostic =>
      exact ⟨settled_abandonedChecker _ settled.table settled.below settled.units _, logged,
        fun _ absent => by cases absent⟩
  | ok items =>
    obtain ⟨table, below⟩ := analyze_settled settled items collecting.begun
    simp only [settleReading]
    split
    · exact ⟨settled_abandonedChecker ⟨_, _, _⟩ table below settled.units _, logged,
        fun _ absent => by cases absent⟩
    · refine ⟨⟨table.commit _, below_commit below _, ?_, rfl⟩, ⟨?_, ?_, ?_⟩,
        fun _ absent => by cases absent⟩
      · intro entry member
        rcases List.mem_cons.mp member with rfl | kept
        · exact collecting.begun
        · exact settled.units entry (mem_of_mem_dropUnit kept)
      · exact TransactionLog.ascending_place _ logged.ascending
      · intro entry member
        rcases TransactionLog.mem_place member with rfl | old
        · exact collecting.begun
        · exact logged.allocated entry old
      · intro entry member
        rcases TransactionLog.mem_place member with rfl | old
        · rfl
        · exact logged.committed entry old

/-- The result of a request to a well-formed compiler. -/
theorem compile_eq_settleReading {compiler : Compiler} {log : TransactionLog}
    (wellFormed : compiler.WellFormed log) (request : CompileRequest) :
    ∃ transaction allocated, compiler.transactionFor log request = (transaction, allocated) ∧
      transaction.Collecting compiler.checker allocated ∧
      compiler.checker.Settled allocated.nextNumber ∧ allocated.WellFormed ∧
      compiler.compile log request =
        .ok (settleReading compiler.checker allocated (transaction.continuedBy request.text)
          (Syntax.parseProgram (transaction.continuedBy request.text).source)) := by
  have collecting := transactionFor_collecting wellFormed request
  obtain ⟨sameEntries, le⟩ := transactionFor_log compiler log request
  exact ⟨_, _, rfl, collecting, wellFormed.checker.mono le,
    wellFormed_of_entries wellFormed.logged sameEntries le,
    compile_eq rfl collecting.state wellFormed.checker.reported⟩

/-- A request to a well-formed compiler is answered, and leaves it well formed. -/
theorem compile_ok {compiler : Compiler} {log : TransactionLog}
    (wellFormed : compiler.WellFormed log) (request : CompileRequest) :
    ∃ report after logged, compiler.compile log request = .ok (report, after, logged) ∧
      after.WellFormed logged := by
  obtain ⟨transaction, allocated, -, collecting, settled, logged, answered⟩ :=
    compile_eq_settleReading wellFormed request
  exact ⟨_, _, _, answered,
    settleReading_wellFormed settled logged (collecting.continuedBy request.text) _⟩

theorem wellFormed_abandonOpen {compiler : Compiler} {log : TransactionLog}
    (wellFormed : compiler.WellFormed log) : compiler.abandonOpen.2.WellFormed log := by
  unfold abandonOpen
  cases waiting : compiler.opened with
  | none => exact wellFormed
  | some transaction =>
    obtain ⟨table, below, units, reported⟩ := wellFormed.checker
    refine ⟨⟨table.forget _, below_forget below _, ?_, reported⟩, wellFormed.logged,
      fun _ absent => by cases absent⟩
    exact fun entry member => units entry (mem_of_mem_dropUnit member)

/-- Forgetting one transaction leaves the others as they are. -/
theorem untouched_forget {checker : Checker} {id : TransactionId}
    (untouched : checker.Untouched id) (forgotten : TransactionId) :
    (checker.forget forgotten).Untouched id where
  records record member := by
    obtain ⟨original, originalMember, rfl⟩ := List.mem_map.mp member
    have other := untouched.records original originalMember
    split <;> exact other
  units entry member := untouched.units entry (mem_of_mem_dropUnit member)

theorem wellFormed_unload {compiler : Compiler} {log : TransactionLog}
    (wellFormed : compiler.WellFormed log) (id : TransactionId) :
    (compiler.unload log id).2.1.WellFormed (compiler.unload log id).2.2 := by
  unfold unload
  cases log.get? id with
  | none => exact wellFormed
  | some transaction =>
    obtain ⟨table, below, units, reported⟩ := wellFormed.checker
    refine ⟨⟨table.forget _, below_forget below _, ?_, reported⟩, wellFormed.logged.erase id, ?_⟩
    · exact fun entry member => units entry (mem_of_mem_dropUnit member)
    · intro waiting kept
      obtain ⟨state, begun, declarations, untouched, unlogged⟩ := wellFormed.opened waiting kept
      refine ⟨state, begun, declarations, untouched_forget untouched id, ?_⟩
      rw [TransactionLog.get?_eq_none_iff] at unlogged ⊢
      exact fun entry member => unlogged entry (List.mem_filter.mp member).1

theorem wellFormed_collectUnit {compiler : Compiler} {log : TransactionLog}
    (wellFormed : compiler.WellFormed log) (id : TransactionId) :
    WellFormed { compiler with checker := (compiler.checker.collectUnit id).2 } log := by
  have fewer : ∀ entry ∈ (compiler.checker.collectUnit id).2.units,
      entry ∈ compiler.checker.units := by
    intro entry member
    unfold Checker.collectUnit at member
    split at member
    · exact mem_of_mem_dropUnit member
    · exact member
  have sameTable : (compiler.checker.collectUnit id).2.table = compiler.checker.table := by
    unfold Checker.collectUnit
    split <;> rfl
  have sameReports :
      (compiler.checker.collectUnit id).2.diagnostics = compiler.checker.diagnostics := by
    unfold Checker.collectUnit
    split <;> rfl
  obtain ⟨table, below, units, reported⟩ := wellFormed.checker
  refine ⟨⟨sameTable ▸ table, sameTable ▸ below, fun entry member => units entry (fewer entry member),
    sameReports.trans reported⟩, wellFormed.logged, ?_⟩
  intro waiting kept
  obtain ⟨state, begun, declarations, untouched, unlogged⟩ := wellFormed.opened waiting kept
  exact ⟨state, begun, declarations, ⟨sameTable ▸ untouched.records,
    fun entry member => untouched.units entry (fewer entry member)⟩, unlogged⟩

end Compiler

end IncrementalC
