import IncrementalC.Proofs.Compilation.Renumbering

/-!
Contract: input that comes to nothing leaves no trace.

Input comes to nothing when it fails, or when it is abandoned while it waits for more.
Afterwards everything is as before, up to numbers that were given out for it. From
then on a compiler that saw the input and one that did not answer every sequence of
requests alike, by numbers that differ by those given out for the input.

Owns: input that comes to nothing, and what it says about all later requests.

Does not own: why numbers do not matter.
-/

namespace IncrementalC

/-! ## Input that comes to nothing -/

namespace Compiler

/-- The input of a transaction fails in the end, or is abandoned while it waits for
more; `id` is the number of the transaction. -/
inductive ComesToNothing (id : TransactionId) :
    Compiler → TransactionLog → Compiler → TransactionLog → Prop where
  | failed {compiler after : Compiler} {log logged : TransactionLog} {request : CompileRequest}
      {report : CompileReport}
      (compiled : compiler.compile log request = .ok (report, after, logged))
      (verdict : report.verdict = .failure) (number : report.transaction = id) :
      ComesToNothing id compiler log after logged
  | abandoned {compiler waiting : Compiler} {log logged : TransactionLog}
      {request : CompileRequest} {report : CompileReport}
      (compiled : compiler.compile log request = .ok (report, waiting, logged))
      (verdict : report.verdict = .moreInputExpected) (number : report.transaction = id) :
      ComesToNothing id compiler log waiting.abandonOpen.2 logged
  | continued {compiler waiting after : Compiler} {log between logged : TransactionLog}
      {request : CompileRequest} {report : CompileReport}
      (compiled : compiler.compile log request = .ok (report, waiting, between))
      (verdict : report.verdict = .moreInputExpected) (number : report.transaction = id)
      (rest : ComesToNothing id waiting between after logged) :
      ComesToNothing id compiler log after logged

/-- All that is left of input that came to nothing: forgotten records. -/
structure OnlyGapAdded (before after : Checker) : Prop where
  wellFormed : after.table.WellFormed
  records : ∃ gap, after.table.records = before.table.records ++ gap ∧
    ∀ record ∈ gap, record.isLive = false
  units : after.units = before.units

/-- Forgotten records answer no look-up. -/
theorem OnlyGapAdded.lookup_eq {before after : Checker} (gap : OnlyGapAdded before after)
    (wellFormed : before.table.WellFormed) (name : String) :
    after.table.lookup name = before.table.lookup name := by
  obtain ⟨_, records, forgotten⟩ := gap.records
  exact wellFormed.lookup_gap gap.wellFormed records forgotten name

/-- Rolling back leaves of an analysis forgotten records only. -/
theorem onlyGapAdded_of_extends {checker : Checker} {id : TransactionId} {table : DeclarationTable}
    {added : List DeclarationRecord} (untouched : checker.Untouched id)
    (wellFormed : table.WellFormed) (records : table.records = checker.table.records ++ added)
    (owned : ∀ record ∈ added, record.owner = id) :
    OnlyGapAdded checker (abandonedChecker { checker with table } id) where
  wellFormed := wellFormed.forget id
  records := by
    refine ⟨added.map (DeclarationTable.hidden id), ?_, ?_⟩
    · change (table.forget id).2.records = _
      rw [DeclarationTable.forget_records, records, List.map_append,
        forget_untouched untouched.records]
    · intro record member
      obtain ⟨original, originalMember, rfl⟩ := List.mem_map.mp member
      simp [DeclarationTable.isLive_hidden, owned original originalMember]
  units := dropUnit_untouched untouched.units

theorem abandonedChecker_onlyGapAdded {checker : Checker} {id : TransactionId}
    (untouched : checker.Untouched id) (wellFormed : checker.table.WellFormed) :
    OnlyGapAdded checker (abandonedChecker checker id) :=
  onlyGapAdded_of_extends untouched wellFormed (List.append_nil _).symm
    fun _ absent => absurd absent List.not_mem_nil

/-- A transaction that fails is undone up to forgotten records. -/
theorem settleReading_failure {checker : Checker} {log : TransactionLog}
    {transaction : Transaction} (settled : checker.Settled log.nextNumber)
    (collecting : transaction.Collecting checker log)
    (reading : Except SourceError (List Syntax.Item))
    (verdict : (settleReading checker log transaction reading).1.verdict = .failure) :
    OnlyGapAdded checker (settleReading checker log transaction reading).2.1.checker ∧
      (settleReading checker log transaction reading).2.1.opened = none ∧
      (settleReading checker log transaction reading).2.2 = log := by
  cases reading with
  | error error =>
    cases error with
    | incomplete => exact absurd verdict (by simp [settleReading])
    | invalid diagnostic =>
      exact ⟨abandonedChecker_onlyGapAdded collecting.untouched settled.table, rfl, rfl⟩
  | ok items =>
    have extension := Analysis.analyze_extends items checker.table transaction.id
    obtain ⟨added, -, records, owned, -, -, -⟩ := extension.added
    simp only [settleReading] at verdict ⊢
    split
    · exact ⟨onlyGapAdded_of_extends collecting.untouched (extension.wellFormed settled.table)
        records fun record member => (owned record member).1, rfl, rfl⟩
    · rename_i committed
      rw [if_neg committed] at verdict
      exact absurd verdict (by simp)

/-- A transaction waits for more input only if its text stops too early. -/
theorem settleReading_moreInputExpected (checker : Checker) (log : TransactionLog)
    (transaction : Transaction) (reading : Except SourceError (List Syntax.Item))
    (verdict :
      (settleReading checker log transaction reading).1.verdict = .moreInputExpected) :
    (settleReading checker log transaction reading).2 = (⟨checker, some transaction⟩, log) := by
  cases reading with
  | error error =>
    cases error with
    | incomplete => rfl
    | invalid diagnostic => exact absurd verdict (by simp [settleReading])
  | ok items =>
    simp only [settleReading] at verdict
    split at verdict <;> exact absurd verdict (by simp)

/-- The number of a transaction and the log after it is begun do not depend on what is
asked for. -/
theorem transactionFor_congr (compiler : Compiler) (log : TransactionLog)
    (first second : CompileRequest) :
    (compiler.transactionFor log first).1.id = (compiler.transactionFor log second).1.id ∧
      (compiler.transactionFor log first).2 = (compiler.transactionFor log second).2 := by
  unfold transactionFor
  cases compiler.opened <;> exact ⟨rfl, rfl⟩

/-- A transaction that waits for more input has changed nothing. -/
theorem compile_moreInputExpected {compiler waiting : Compiler} {log logged : TransactionLog}
    {request : CompileRequest} {report : CompileReport} (wellFormed : compiler.WellFormed log)
    (compiled : compiler.compile log request = .ok (report, waiting, logged))
    (verdict : report.verdict = .moreInputExpected) :
    ∃ transaction, waiting = ⟨compiler.checker, some transaction⟩ ∧
      transaction.Collecting compiler.checker logged ∧ report.transaction = transaction.id ∧
      transaction.id = (compiler.transactionFor log request).1.id ∧
      logged = (compiler.transactionFor log request).2 := by
  obtain ⟨transaction, allocated, chosen, collecting, -, -, answered⟩ :=
    compile_eq_settleReading wellFormed request
  have result := Except.ok.inj (compiled.symm.trans answered)
  have waits := settleReading_moreInputExpected compiler.checker allocated
    (transaction.continuedBy request.text)
    (Syntax.parseProgram (transaction.continuedBy request.text).source)
  have numbered := report_settleReading compiler.checker allocated
    (transaction.continuedBy request.text)
    (Syntax.parseProgram (transaction.continuedBy request.text).source)
  rw [← result] at waits numbered
  obtain ⟨rfl, rfl⟩ := Prod.mk.inj (waits verdict)
  rw [chosen]
  exact ⟨_, rfl, collecting.continuedBy request.text, numbered, rfl, rfl⟩

/-- Input that comes to nothing adds a gap, and uses the number of its transaction. -/
theorem ComesToNothing.leaves {id : TransactionId} {compiler after : Compiler}
    {log logged : TransactionLog} (nothing : ComesToNothing id compiler log after logged)
    (wellFormed : compiler.WellFormed log) (request : CompileRequest) :
    OnlyGapAdded compiler.checker after.checker ∧ after.opened = none ∧
      after.WellFormed logged ∧ id = (compiler.transactionFor log request).1.id ∧
      logged = (compiler.transactionFor log request).2 := by
  induction nothing with
  | @failed compiler after log logged own report compiled verdict number =>
    obtain ⟨transaction, allocated, chosen, collecting, settled, allocatedLog, answered⟩ :=
      compile_eq_settleReading wellFormed own
    obtain ⟨sameNumber, sameLog⟩ := transactionFor_congr compiler log request own
    rw [sameNumber, sameLog, chosen]
    obtain ⟨_, _, _, again, kept⟩ := compile_ok wellFormed own
    rw [compiled] at again
    cases again
    rw [compiled] at answered
    have result := Except.ok.inj answered
    have failed := settleReading_failure settled (collecting.continuedBy own.text)
      (Syntax.parseProgram (transaction.continuedBy own.text).source)
    have numbered := report_settleReading compiler.checker allocated
      (transaction.continuedBy own.text)
      (Syntax.parseProgram (transaction.continuedBy own.text).source)
    rw [← result] at failed numbered
    obtain ⟨gap, closed, sameLogged⟩ := failed verdict
    exact ⟨gap, closed, kept, number.symm.trans numbered, sameLogged⟩
  | @abandoned compiler waiting log logged own report compiled verdict number =>
    obtain ⟨transaction, rfl, collecting, numbered, sameNumber, sameLog⟩ :=
      compile_moreInputExpected wellFormed compiled verdict
    obtain ⟨sameId, sameAllocated⟩ := transactionFor_congr compiler log request own
    obtain ⟨_, _, _, again, kept⟩ := compile_ok wellFormed own
    rw [compiled] at again
    cases again
    refine ⟨?_, rfl, wellFormed_abandonOpen kept, ?_, sameLog.trans sameAllocated.symm⟩
    · have undone := abandonedChecker_onlyGapAdded collecting.untouched wellFormed.checker.table
      exact ⟨undone.wellFormed, undone.records, undone.units⟩
    · rw [← number, numbered, sameNumber, sameId]
  | @continued compiler waiting after log between logged own report compiled verdict number rest
      inductionHypothesis =>
    obtain ⟨transaction, rfl, collecting, numbered, sameNumber, sameLog⟩ :=
      compile_moreInputExpected wellFormed compiled verdict
    obtain ⟨sameId, sameAllocated⟩ := transactionFor_congr compiler log request own
    obtain ⟨_, _, _, again, kept⟩ := compile_ok wellFormed own
    rw [compiled] at again
    cases again
    obtain ⟨gap, closed, final, -, unchanged⟩ := inductionHypothesis kept
    refine ⟨gap, closed, final, ?_, ?_⟩
    · rw [← number, numbered, sameNumber, sameId]
    · rw [unchanged]
      exact sameLog.trans sameAllocated.symm

/-! ## After input that came to nothing -/

/-- The renumbering that skips what was given out between two states. -/
def skipping (compiler after : Compiler) (log logged : TransactionLog) : Renumbering where
  firstTransaction := log.nextNumber
  skippedTransactions := logged.nextNumber - log.nextNumber
  firstDeclaration := compiler.checker.table.records.length
  skippedDeclarations :=
    after.checker.table.records.length - compiler.checker.table.records.length

theorem record_of_settled (renumbering : Renumbering) {checker : Checker}
    (settled : checker.Settled renumbering.firstTransaction)
    (first : renumbering.firstDeclaration = checker.table.records.length)
    {record : DeclarationRecord} (member : record ∈ checker.table.records) :
    renumbering.record record = record := by
  obtain ⟨position, found⟩ := List.mem_iff_getElem?.mp member
  have numbered := settled.table.id_of_getElem? found
  have inside := (List.getElem?_eq_some_iff.mp found).1
  obtain ⟨owner, definition⟩ := settled.below record member
  have sameId : renumbering.declaration record.id = record.id :=
    Renumbering.declaration_of_lt (by rw [numbered, first]; exact inside)
  have sameKind : renumbering.kind record.kind = record.kind := by
    rcases kind : record.kind with _ | ⟨arity, returns, body⟩
    · rfl
    · rw [kind] at definition
      cases body with
      | none => rfl
      | some body =>
        simp only [Renumbering.kind, Option.map_some,
          Renumbering.transaction_of_lt (definition body rfl)]
  simp only [Renumbering.record, sameId, sameKind, Renumbering.transaction_of_lt owner]

/-- Records that were there before the numbers were skipped are found as they are. -/
theorem lookup_eq_of_settled {renumbering : Renumbering} {left right : Checker}
    (matched : left.Matches renumbering right)
    (settled : right.Settled renumbering.firstTransaction)
    (first : renumbering.firstDeclaration = right.table.records.length) (name : String) :
    left.table.lookup name = right.table.lookup name := by
  rw [matched.table.lookup_eq]
  cases found : right.table.lookup name with
  | none => rfl
  | some record =>
    have same := record_of_settled renumbering settled first (settled.table.mem_of_lookup found)
    rw [Option.map_some, same]

/-- The compiler that saw the input matches the one that did not. -/
theorem matches_of_gap {compiler after : Compiler} {log logged : TransactionLog}
    (wellFormed : compiler.WellFormed log) (idle : compiler.opened = none)
    (closed : after.opened = none) (gap : OnlyGapAdded compiler.checker after.checker)
    (allocated : logged = log.allocate.2) :
    after.Matches (skipping compiler after log logged) compiler ∧
      logged.Matches (skipping compiler after log logged) log := by
  subst allocated
  have sameRecords : compiler.checker.table.records.map
      (skipping compiler after log log.allocate.2).record = compiler.checker.table.records :=
    (List.map_congr_left fun _ member => record_of_settled _ wellFormed.checker rfl member).trans
      (List.map_id _)
  refine ⟨⟨⟨⟨gap.wellFormed, wellFormed.checker.table, ?_⟩, ?_⟩, ?_, ?_⟩, ⟨?_, ?_, ?_⟩⟩
  · obtain ⟨added, records, forgotten⟩ := gap.records
    refine ⟨compiler.checker.table.records, added, [], ?_, ?_, rfl, ?_, forgotten⟩
    · rw [List.append_nil]
    · rw [sameRecords, records, List.map_nil, List.append_nil]
    · simp [skipping, records]
  · rw [gap.units]
    refine ((List.map_congr_left fun code member => ?_).trans (List.map_id _)).symm
    exact Renumbering.keyedCode_of_lt (wellFormed.checker.units code member) code.2
  · rw [closed, idle, Option.map_none]
  · rw [idle]
    exact fun _ absent => by cases absent
  · refine ((List.map_congr_left fun transaction member => ?_).trans (List.map_id _)).symm
    exact Renumbering.entry_of_lt transaction (wellFormed.logged.allocated transaction member)
  · simp [skipping, TransactionLog.allocate, Renumbering.shift]
  · exact Nat.le_refl _

/-- Input that comes to nothing changes no answer about what is declared, keeps the log
and no code of its own, and no later sequence of requests can tell that it was there,
except by the numbers that it used up. -/
theorem discarded_input_leaves_no_trace {earlier : List Operation} {told : List Answer}
    {compiler after : Compiler} {log logged : TransactionLog} {id : TransactionId}
    (reached : Compiler.new.performAll .empty earlier = .ok (told, compiler, log))
    (idle : compiler.opened = none) (nothing : ComesToNothing id compiler log after logged) :
    (∀ name, after.checker.lookup name = compiler.checker.lookup name) ∧
    (∀ name, after.checker.functionInfo? name = compiler.checker.functionInfo? name) ∧
    after.checker.table.liveCount = compiler.checker.table.liveCount ∧
    logged.entries = log.entries ∧
    after.checker.units = compiler.checker.units ∧ (∀ code ∈ after.checker.units, code.1 ≠ id) ∧
    ∃ renumbering : Renumbering,
      renumbering.firstTransaction = log.nextNumber ∧
      renumbering.skippedTransactions = 1 ∧
      renumbering.firstDeclaration = compiler.checker.table.records.length ∧
      ∀ later : List Operation, ∃ answers final finalLog unaware unawareLog,
        compiler.performAll log later = .ok (answers, unaware, unawareLog) ∧
        after.performAll logged (later.map renumbering.operation) =
          .ok (answers.map renumbering.answer, final, finalLog) ∧
        (∀ name, final.checker.lookup name =
          (unaware.checker.lookup name).map renumbering.declaration) ∧
        (∀ name, final.checker.functionInfo? name =
          (unaware.checker.functionInfo? name).map renumbering.functionInfo) ∧
        (∀ name, name ∈ final.checker.table.liveNames ↔
          name ∈ unaware.checker.table.liveNames) ∧
        final.checker.table.liveCount = unaware.checker.table.liveCount ∧
        finalLog.entries = unawareLog.entries.map renumbering.entry ∧
        final.unload finalLog id = (none, final, finalLog) := by
  have wellFormed := wellFormed_of_performAll reached
  obtain ⟨gap, closed, afterWellFormed, number, allocated⟩ :=
    nothing.leaves wellFormed ⟨"", .declaration, none, none⟩
  simp only [transactionFor, idle] at number allocated
  replace number : id = ⟨log.nextNumber⟩ := number
  obtain ⟨compilers, logs⟩ := matches_of_gap wellFormed idle closed gap allocated
  have sameLookup := lookup_eq_of_settled compilers.checker wellFormed.checker rfl
  refine ⟨?_, ?_, compilers.checker.table.liveCount_eq, ?_, gap.units, ?_,
    skipping compiler after log logged, rfl, ?_, rfl, ?_⟩
  · intro name
    simp only [Checker.lookup, sameLookup]
  · intro name
    simp only [Checker.functionInfo?, sameLookup]
  · rw [allocated]
    rfl
  · intro code member
    rw [gap.units] at member
    rintro rfl
    exact absurd (wellFormed.checker.units code member) (by rw [number]; exact Nat.lt_irrefl _)
  · simp [skipping, allocated, TransactionLog.allocate]
  · intro later
    obtain ⟨answers, final, finalLog, unaware, unawareLog, performed, renumbered, matched,
      matchedLogs⟩ := compilers.performAll logs afterWellFormed wellFormed later
    have gone : finalLog.get? id = none := by
      refine matchedLogs.get?_skipped ?_ ?_ <;>
        simp [skipping, number, allocated, TransactionLog.allocate]
    refine ⟨answers, final, finalLog, unaware, unawareLog, performed, renumbered,
      matched.checker.lookup_eq, matched.checker.functionInfo?_eq, ?_,
      matched.checker.table.liveCount_eq, matchedLogs.entries, ?_⟩
    · intro name
      rw [matched.checker.table.left_wellFormed.mem_liveNames_iff,
        matched.checker.table.right_wellFormed.mem_liveNames_iff, matched.checker.table.lookup_eq,
        Option.isSome_map]
    · simp only [unload, gone]

/-- A text that declares one name and declares another one again is such input: the
first declaration goes away with it. -/
theorem redeclaration_leaves_no_trace :
    ∃ told compiler log after logged,
      Compiler.new.performAll .empty [.compile ⟨"int a;", .declaration, none, none⟩] =
        .ok (told, compiler, log) ∧
      ComesToNothing ⟨1⟩ compiler log after logged ∧
      (∀ name, after.checker.lookup name = compiler.checker.lookup name) ∧
      after.checker.table.liveCount = 1 := by
  let first : CompileRequest := ⟨"int a;", .declaration, none, none⟩
  let second : CompileRequest := ⟨"int b; int a;", .declaration, none, none⟩
  obtain ⟨told, compiler, log, reached, wellFormed⟩ :=
    performAll_ok wellFormed_new [.compile first]
  obtain ⟨report, after, logged, compiled, -⟩ := compile_ok wellFormed second
  have facts :
      ((Compiler.new.performAll .empty [.compile first]).toOption.bind fun result =>
        (result.2.1.compile result.2.2 second).toOption.map fun answer =>
          (result.2.1.opened.isNone, result.2.1.checker.table.liveCount, answer.1.verdict,
            answer.1.transaction)) =
        some (true, 1, .failure, ⟨1⟩) := by decide +kernel
  rw [reached] at facts
  simp only [Except.toOption, Option.bind_some, compiled, Option.map_some, Option.some.injEq,
    Prod.mk.injEq, Option.isNone_iff_eq_none] at facts
  obtain ⟨idle, count, verdict, number⟩ := facts
  have nothing : ComesToNothing ⟨1⟩ compiler log after logged := .failed compiled verdict number
  obtain ⟨lookups, -, liveCount, -⟩ := discarded_input_leaves_no_trace reached idle nothing
  exact ⟨told, compiler, log, after, logged, reached, nothing, lookups, liveCount.trans count⟩

end Compiler

end IncrementalC
