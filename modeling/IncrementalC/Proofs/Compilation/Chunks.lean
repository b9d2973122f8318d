import IncrementalC.Proofs.Compilation.Discarding
import IncrementalC.Proofs.Input.Joining

/-!
Contract: when compiling text in chunks is compiling the text.

A transaction that waits for more input keeps its number, its options and its text, and touches
nothing else. So the request that ends the wait is answered as one request for the joined text
is, with the options of the first chunk, as long as no report of a dropped scope waits. The first
chunk takes such reports, and they spoil nothing then; a request for the whole text has to answer
for them.

Owns: requests that are answered by waiting, the answer that ends the wait, and what reports that
wait make of the comparison.

Does not own: which texts are unfinished, or how reports come to wait.
-/

namespace IncrementalC.Compiler

open Input (Joins)

/-! ## Requests that are answered by waiting -/

/-- The first request and then the others were answered, each by waiting for more input. -/
inductive Awaits (compiler : Compiler) (log : TransactionLog) (first : CompileRequest) :
    List CompileRequest → Compiler → TransactionLog → Prop where
  | begun {report : CompileReport} {waiting : Compiler} {logged : TransactionLog}
      (compiled : compiler.compile log first = .ok (report, waiting, logged))
      (verdict : report.verdict = .moreInputExpected) : Awaits compiler log first [] waiting logged
  | continued {others : List CompileRequest} {request : CompileRequest} {report : CompileReport}
      {between waiting : Compiler} {betweenLog logged : TransactionLog}
      (before : Awaits compiler log first others between betweenLog)
      (compiled : between.compile betweenLog request = .ok (report, waiting, logged))
      (verdict : report.verdict = .moreInputExpected) :
      Awaits compiler log first (others ++ [request]) waiting logged

/-- Analysed text is finished. -/
theorem record_ne_incomplete {checker next : Checker} {transaction extended : Transaction}
    {analysis : Analysis} :
    checker.record transaction analysis ≠ .ok (.incomplete, extended, next) := by
  intro recorded
  unfold Checker.record at recorded
  cases declared : transaction.addDeclarations analysis.declarations with
  | error misuse =>
    rw [declared] at recorded
    cases recorded
  | ok declaring =>
    simp only [declared] at recorded
    split at recorded <;> cases recorded

/-- Text that is unfinished changes nothing in the checker. -/
theorem feed_incomplete {checker next : Checker} {transaction extended : Transaction}
    {text : String} (fed : checker.feed transaction text = .ok (.incomplete, extended, next)) :
    Syntax.parseProgram (transaction.continuedBy text).source = .error .incomplete ∧
      extended = transaction.continuedBy text ∧ next = checker := by
  by_cases collecting : transaction.state = .collecting
  · have appended : transaction.appendSource text = .ok (transaction.continuedBy text) :=
      if_pos collecting
    simp only [Checker.feed, appended] at fed
    rcases reading : Syntax.parseProgram (transaction.continuedBy text).source with
      (_ | diagnostic) | items
    · rw [reading] at fed
      cases fed
      exact ⟨rfl, rfl, rfl⟩
    · rw [reading] at fed
      cases fed
    · rw [reading] at fed
      exact absurd fed record_ne_incomplete
  · have refused : transaction.appendSource text = .error (.inputRefused transaction.id) :=
      if_neg collecting
    simp only [Checker.feed, refused] at fed
    cases fed

/-- Only unfinished text is left waiting. -/
theorem settle_moreInputExpected {compiler waiting : Compiler} {log logged : TransactionLog}
    {transaction : Transaction} {outcome : FeedOutcome} {diagnostics : List Diagnostic}
    (settled : compiler.settle log transaction outcome diagnostics =
      .ok (.moreInputExpected, waiting, logged)) :
    outcome = .incomplete ∧ waiting = compiler.keepOpen transaction ∧ logged = log := by
  cases outcome with
  | incomplete =>
    cases settled
    exact ⟨rfl, rfl, rfl⟩
  | rejected => cases settled
  | complete =>
    simp only [settle, bind, Except.bind, pure, Except.pure] at settled
    split at settled
    · cases settled
    · split at settled
      · cases settled
      · split at settled <;> cases settled

/-- A request that is answered by waiting has unfinished text, and leaves the transaction with
that text open. Nothing else changes, except that the reports were taken, and were told. -/
theorem compile_awaits {compiler waiting : Compiler} {log allocated logged : TransactionLog}
    {request : CompileRequest} {transaction : Transaction} {report : CompileReport}
    (chosen : compiler.transactionFor log request = (transaction, allocated))
    (compiled : compiler.compile log request = .ok (report, waiting, logged))
    (verdict : report.verdict = .moreInputExpected) :
    Syntax.parseProgram (transaction.continuedBy request.text).source = .error .incomplete ∧
      waiting = ⟨compiler.taken.checker, some (transaction.continuedBy request.text)⟩ ∧
      logged = allocated ∧ report.diagnostics = notable compiler.checker.diagnostics := by
  simp only [compile, chosen, feed] at compiled
  cases fed : compiler.checker.feed transaction request.text with
  | error misuse =>
    rw [fed] at compiled
    cases compiled
  | ok step =>
    obtain ⟨outcome, extended, checker⟩ := step
    simp only [fed, bind, Except.bind] at compiled
    split at compiled
    · cases compiled
    · rename_i answer settled
      obtain ⟨found, settledCompiler, settledLog⟩ := answer
      cases compiled
      obtain rfl : found = .moreInputExpected := verdict
      obtain ⟨rfl, rfl, rfl⟩ := settle_moreInputExpected settled
      obtain ⟨incomplete, rfl, rfl⟩ := feed_incomplete fed
      exact ⟨incomplete, rfl, rfl, rfl⟩

theorem readable_of_incomplete {text : String}
    (incomplete : Syntax.parseProgram text = .error .incomplete) (diagnostic : Diagnostic) :
    tokenize text ≠ .error (.invalid diagnostic) := by
  intro wrong
  simp only [Syntax.parseProgram, wrong] at incomplete
  cases incomplete

/-! ## The transaction that waits -/

/-- A transaction that waits is continued. -/
theorem transactionFor_waiting (checker : Checker) (waiting : Transaction) (log : TransactionLog)
    (request : CompileRequest) :
    (⟨checker, some waiting⟩ : Compiler).transactionFor log request = (waiting, log) := rfl

section

variable {compiler waiting : Compiler} {log logged : TransactionLog} {first : CompileRequest}
  {others : List CompileRequest} (unopened : compiler.opened = none)

include unopened

/-- What waits is the transaction of the first request, with the text of all chunks. -/
theorem Awaits.waits (awaits : compiler.Awaits log first others waiting logged) :
    ∃ text, Joins first.text (others.map CompileRequest.text) text ∧
      Syntax.parseProgram text = .error .incomplete ∧
      waiting = ⟨compiler.taken.checker, some (collecting log first text)⟩ ∧
      logged = log.allocate.2 := by
  induction awaits with
  | begun compiled verdict =>
    obtain ⟨incomplete, rfl, rfl, -⟩ :=
      compile_awaits (transactionFor_unopened unopened first) compiled verdict
    refine ⟨_, ?_, incomplete, rfl, rfl⟩
    change Joins first.text [] (Input.joinContinuation "" first.text)
    rw [joinContinuation_empty]
    exact .done _
  | continued before compiled verdict inductionHypothesis =>
    obtain ⟨text, joins, unfinished, rfl, rfl⟩ := inductionHypothesis
    obtain ⟨incomplete, rfl, rfl, -⟩ :=
      compile_awaits (transactionFor_waiting _ _ _ _) compiled verdict
    refine ⟨_, ?_, incomplete, rfl, rfl⟩
    rw [List.map_append]
    exact joins.continued (readable_of_incomplete unfinished) _

/-- A transaction that waits with `text` answers a request as one request for the joined text is
answered. -/
theorem compile_collecting (first last : CompileRequest) (text : String) :
    (⟨compiler.taken.checker, some (collecting log first text)⟩ : Compiler).compile
        log.allocate.2 last =
      compiler.taken.compile log { first with text := Input.joinContinuation text last.text } := by
  let joined : CompileRequest := { first with text := Input.joinContinuation text last.text }
  have same : (collecting log joined "").continuedBy joined.text =
      (collecting log first text).continuedBy last.text := by
    simp only [Transaction.continuedBy, collecting, joined, joinContinuation_empty]
  have chunked : (⟨compiler.taken.checker, some (collecting log first text)⟩ : Compiler).compile
      log.allocate.2 last = _ :=
    compile_eq (transactionFor_waiting _ _ _ _) rfl rfl
  have whole : compiler.taken.compile log joined = _ :=
    compile_eq (transactionFor_unopened unopened joined) rfl rfl
  rw [same] at whole
  exact chunked.trans whole.symm

/-- The first chunk is answered with the reports that waited. -/
theorem Awaits.tells (awaits : compiler.Awaits log first others waiting logged) :
    ∃ report between betweenLog, compiler.compile log first = .ok (report, between, betweenLog) ∧
      report.diagnostics = notable compiler.checker.diagnostics := by
  induction awaits with
  | begun compiled verdict =>
    obtain ⟨-, -, -, told⟩ :=
      compile_awaits (transactionFor_unopened unopened first) compiled verdict
    exact ⟨_, _, _, compiled, told⟩
  | continued _ _ _ inductionHypothesis => exact inductionHypothesis

/-- Compiling chunks, of which all but the last are answered by waiting, is compiling the text
that they make with what was asked for first, and nothing changes until the last chunk. But reports
that wait are told with the first chunk and judged with the whole text: it is answered with them
before its own, and fails instead of succeeding if one of them is fatal. So both come to the same
exactly if there is nothing to tell. -/
theorem chunks_compile_as_one_text_unless_reports_wait
    (awaits : compiler.Awaits log first others waiting logged) (last : CompileRequest) :
    waiting.checker = compiler.taken.checker ∧ logged.entries = log.entries ∧
    (∃ told between betweenLog, compiler.compile log first = .ok (told, between, betweenLog) ∧
      told.diagnostics = notable compiler.checker.diagnostics) ∧
    ∃ text, Joins first.text (others.map CompileRequest.text ++ [last.text]) text ∧
      ∃ report after final whole later laterLog,
        waiting.compile logged last = .ok (report, after, final) ∧
        compiler.compile log { first with text } = .ok (whole, later, laterLog) ∧
        whole = report.burdened (notable compiler.checker.diagnostics) first.options ∧
        (report.spoiledBy (notable compiler.checker.diagnostics) first.options = false →
          later = after) ∧
        (report.spoiledBy (notable compiler.checker.diagnostics) first.options = true →
          later.opened = none ∧ laterLog.entries = log.entries) ∧
        ((whole, later, laterLog) = (report, after, final) ↔
          notable compiler.checker.diagnostics = []) := by
  have told := awaits.tells unopened
  obtain ⟨text, joins, unfinished, rfl, rfl⟩ := awaits.waits unopened
  let joined : CompileRequest :=
    { first with text := Input.joinContinuation text last.text }
  -- Once the reports are taken, chunks and text are the same request.
  have taken : compiler.taken.compile log joined = _ :=
    compile_eq (transactionFor_unopened unopened joined) rfl rfl
  have chunked := (compile_collecting unopened first last text).trans taken
  generalize settleReading _ _ _ _ = answer at taken chunked
  obtain ⟨report, after, final⟩ := answer
  obtain ⟨later, laterLog, whole, unspoiled, spoiled, silent⟩ := compile_waiting unopened taken
  refine ⟨rfl, rfl, told, joined.text,
    joins.continued (readable_of_incomplete unfinished) last.text, report, after, final, _, later,
    laterLog, chunked, whole, rfl, unspoiled, fun failed => ?_, fun same => ?_, fun nothing => ?_⟩
  · obtain ⟨closed, entries, -⟩ := spoiled failed
    exact ⟨closed, entries⟩
  · exact (report.burdened_eq_iff _ _).mp (congrArg Prod.fst same)
  · have harmless : report.spoiledBy (notable compiler.checker.diagnostics) joined.options =
        false := by
      simp [CompileReport.spoiledBy, nothing]
    rw [unspoiled harmless, silent nothing, (report.burdened_eq_iff _ _).mpr nothing]

end

/-- After a refused text in a dropped scope, a function that is typed in two chunks is accepted,
and the same function in one text is refused. -/
theorem a_dropped_scope_parts_chunks_from_their_text :
    ∃ outcomes transaction dropped allocated waiting logged text report after final whole later
        laterLog,
      Compiler.new.dropScope .empty .declaration ["int x = y;"] =
        .ok (outcomes, transaction, dropped, allocated) ∧
      dropped.Awaits allocated ⟨"int f() \x7b // one", .declaration, none, none⟩ [] waiting
        logged ∧
      Joins "int f() \x7b // one" ["return 1; \x7d"] text ∧
      waiting.compile logged ⟨"return 1; \x7d", .execution, none, none⟩ =
        .ok (report, after, final) ∧
      dropped.compile allocated ⟨text, .declaration, none, none⟩ = .ok (whole, later, laterLog) ∧
      report.verdict = .success ∧ report.diagnostics = [] ∧
      whole.verdict = .failure ∧
      whole.diagnostics.map Diagnostic.code = [.undeclaredIdentifier] := by
  let first : CompileRequest := ⟨"int f() \x7b // one", .declaration, none, none⟩
  let last : CompileRequest := ⟨"return 1; \x7d", .execution, none, none⟩
  have runs : ((Compiler.new.dropScope .empty .declaration ["int x = y;"]).toOption.bind
      fun left => (left.2.2.1.compile left.2.2.2 first).toOption.bind
        fun begun => (begun.2.1.compile begun.2.2 last).toOption.map
          fun ended => decide (left.2.2.1.opened.isNone = true ∧
            begun.1.verdict = .moreInputExpected ∧
            begun.1.diagnostics.map Diagnostic.code = [.undeclaredIdentifier] ∧
            (begun.1.diagnostics.any fun report => report.isFatal false) = true ∧
            ended.1.verdict = .success ∧ ended.1.diagnostics = [])) = some true := by
    decide +kernel
  obtain ⟨⟨outcomes, transaction, dropped, allocated⟩, drops, runs⟩ :=
    Option.bind_eq_some_iff.mp runs
  obtain ⟨⟨begun, waiting, logged⟩, begins, runs⟩ := Option.bind_eq_some_iff.mp runs
  obtain ⟨⟨answer, _⟩, ends, runs⟩ := Option.map_eq_some_iff.mp runs
  obtain ⟨closed, waits, codes, fatal, succeeds, silent⟩ := of_decide_eq_true runs
  have begins := ok_of_toOption begins
  have awaits : dropped.Awaits allocated first [] waiting logged := .begun begins waits
  obtain ⟨-, -, ⟨_, _, _, compiled, told⟩, text, joins, report, after, final, whole, later,
    laterLog, chunked, answered, burdened, -⟩ :=
    chunks_compile_as_one_text_unless_reports_wait (Option.isNone_iff_eq_none.mp closed) awaits last
  obtain ⟨rfl, -⟩ := Prod.mk.inj (Except.ok.inj (begins.symm.trans compiled))
  obtain ⟨rfl, -⟩ := Prod.mk.inj (Except.ok.inj ((ok_of_toOption ends).symm.trans chunked))
  rw [← told] at burdened
  have spoils : answer.spoiledBy begun.diagnostics first.options = true := by
    rw [CompileReport.spoiledBy, succeeds]
    exact fatal
  refine ⟨outcomes, transaction, dropped, allocated, waiting, logged, text, answer, after, final,
    whole, later, laterLog, ok_of_toOption drops, awaits, joins, chunked, answered, succeeds,
    silent, ?_, ?_⟩
  · rw [burdened]
    exact if_pos spoils
  · rw [burdened, CompileReport.burdened, silent, List.append_nil]
    exact codes

end IncrementalC.Compiler
