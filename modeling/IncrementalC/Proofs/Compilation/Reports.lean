import IncrementalC.Proofs.Analysis.Places
import IncrementalC.Proofs.Compilation.Reading
import IncrementalC.Proofs.Syntax.Program
import IncrementalC.Proofs.Syntax.Reporting
import IncrementalC.Proofs.Syntax.Spans

/-!
Contract: what the report on a request says about the text of its transaction.

Text is reported on by the lexer, by the parser or by the checker. Whoever reports, the report is
about a stretch of the text. The first two report errors only, so text that does not compile has a
report that is fatal.

Owns: the places of all reports about a text, and the reports that stand behind each answer.

Does not own: which texts are reported on.
-/

namespace IncrementalC

theorem Diagnostic.isFatal_of_severity {diagnostic : Diagnostic}
    (severe : diagnostic.code.severity = .error) (fatalWarnings : Bool) :
    diagnostic.isFatal fatalWarnings = true := by
  obtain ⟨code, message, span⟩ := diagnostic
  cases code <;> first | rfl | cases severe

/-- Benign reports are never fatal. -/
theorem Diagnostic.not_isBenign_of_isFatal {diagnostic : Diagnostic} {fatalWarnings : Bool}
    (fatal : diagnostic.isFatal fatalWarnings = true) : (!diagnostic.isBenign) = true := by
  rw [isFatal, Bool.and_eq_true] at fatal
  exact fatal.1

namespace Syntax

variable {text : String}

/-- Text that does not read as a program is reported with an error about a stretch of it. -/
theorem report_of_parseProgram {diagnostic : Diagnostic}
    (reported : parseProgram text = .error (.invalid diagnostic)) :
    diagnostic.code.severity = .error ∧ diagnostic.span.StandsIn text.toList := by
  unfold parseProgram at reported
  split at reported
  · next problem read =>
    obtain rfl := Except.error.inj reported
    obtain ⟨problem, span, rfl, stands⟩ := report_of_tokensFrom read [] rfl
    exact ⟨problem.severity_code, stands⟩
  · next tokens read =>
    have pieces := pieces_of_tokensFrom read [] rfl
    obtain ⟨others, ended, -⟩ := pieces.ended
    obtain ⟨problem, token, member, rfl⟩ :=
      report_of_programOfTokens ⟨_, ended ▸ List.mem_concat_self, rfl⟩ reported
    exact ⟨problem.severity_code, pieces.stands (.of_mem member)⟩

/-- The spans of a program are stretches of its text. -/
theorem stands_of_parseProgram {items : List Item} (parsed : parseProgram text = .ok items) :
    ∀ span ∈ spansOfItems items, span.StandsIn text.toList := by
  intro span member
  unfold parseProgram at parsed
  split at parsed
  · cases parsed
  · next tokens read =>
    have covers := (programOfTokens_eq_ok_iff.mp parsed).covers span member
    exact (pieces_of_tokensFrom read [] rfl).stands (covers.mono (List.takeWhile_sublist _))

end Syntax

/-- What the answer to a request and its reports say about the text of the transaction: all reports
are about stretches of it, more input is asked for exactly if the parser wants more, and then
nothing is reported, and a failure has a report that is fatal. -/
structure ReportsOn (source : String) (fatalWarnings : Bool) (verdict : CompileVerdict)
    (diagnostics : List Diagnostic) : Prop where
  stand : ∀ diagnostic ∈ diagnostics, diagnostic.span.StandsIn source.toList
  waits : verdict = .moreInputExpected ↔ Syntax.parseProgram source = .error .incomplete
  silent : verdict = .moreInputExpected → diagnostics = []
  explain : verdict = .failure →
    ∃ diagnostic ∈ diagnostics, diagnostic.isFatal fatalWarnings = true

namespace ReportsOn

variable {source : String} {fatalWarnings : Bool} {diagnostics : List Diagnostic}

theorem waiting (reading : Syntax.parseProgram source = .error .incomplete) :
    ReportsOn source fatalWarnings .moreInputExpected [] where
  stand _ absent := absurd absent List.not_mem_nil
  waits := iff_of_true rfl reading
  silent _ := rfl
  explain failed := by cases failed

theorem failed (reading : Syntax.parseProgram source ≠ .error .incomplete)
    (stand : ∀ diagnostic ∈ diagnostics, diagnostic.span.StandsIn source.toList)
    (explain : ∃ diagnostic ∈ diagnostics, diagnostic.isFatal fatalWarnings = true) :
    ReportsOn source fatalWarnings .failure diagnostics where
  stand := stand
  waits := iff_of_false (by decide) reading
  silent waits := by cases waits
  explain _ := explain

theorem succeeded (reading : Syntax.parseProgram source ≠ .error .incomplete)
    (stand : ∀ diagnostic ∈ diagnostics, diagnostic.span.StandsIn source.toList) :
    ReportsOn source fatalWarnings .success diagnostics where
  stand := stand
  waits := iff_of_false (by decide) reading
  silent waits := by cases waits
  explain failed := by cases failed

end ReportsOn

namespace Compiler

/-- By the three things that a text reads as. -/
theorem settleReading_reportsOn (checker : Checker) (log : TransactionLog)
    (transaction : Transaction) (source : String) :
    let report := (settleReading checker log transaction (Syntax.parseProgram source)).1
    ReportsOn source transaction.options.fatalWarnings report.verdict report.diagnostics := by
  rcases reading : Syntax.parseProgram source with (_ | diagnostic) | items
  · exact .waiting reading
  · obtain ⟨severe, stands⟩ := Syntax.report_of_parseProgram reading
    have fatal := Diagnostic.isFatal_of_severity severe transaction.options.fatalWarnings
    have kept : [diagnostic].filter (fun report => !report.isBenign) = [diagnostic] :=
      List.filter_cons_of_pos (Diagnostic.not_isBenign_of_isFatal fatal)
    simp only [settleReading, kept]
    exact .failed (by simp [reading]) (List.forall_mem_singleton.mpr stands)
      ⟨diagnostic, List.mem_singleton_self diagnostic, fatal⟩
  · have read : Syntax.parseProgram source ≠ .error .incomplete := by simp [reading]
    have stand : ∀ report ∈ (analyze items checker.table transaction.id).diagnostics.filter
        (fun report => !report.isBenign), report.span.StandsIn source.toList := fun report member =>
      Syntax.stands_of_parseProgram reading _
        (Analysis.analyze_about items _ _ report (List.mem_filter.mp member).1)
    simp only [settleReading]
    split
    · next failed =>
      refine .failed read stand ?_
      -- An error of the checker is not benign, so it is among the reports that are kept.
      rcases Bool.or_eq_true_iff.mp failed with errors | fatal
      · obtain ⟨report, member, severe⟩ := List.any_eq_true.mp errors
        have fatal := Diagnostic.isFatal_of_severity (of_decide_eq_true severe)
          transaction.options.fatalWarnings
        exact ⟨report, List.mem_filter.mpr
          ⟨member, Diagnostic.not_isBenign_of_isFatal fatal⟩, fatal⟩
      · exact List.any_eq_true.mp fatal
    · exact .succeeded read stand

/-- The source that text is compiled with: what waits, and the text behind it. -/
def sourceWith (compiler : Compiler) (text : String) : String :=
  Input.joinContinuation ((compiler.opened.map Transaction.source).getD "") text

theorem sourceWith_of_unopened {compiler : Compiler} (unopened : compiler.opened = none)
    (text : String) : compiler.sourceWith text = text := by
  rw [sourceWith, unopened]
  exact joinContinuation_empty text

/-- Whether warnings are fatal to text that asks for `fatalWarnings`. A transaction that waits
keeps what it was begun with. -/
def fatalWarnings (compiler : Compiler) (fatalWarnings : Bool) : Bool :=
  (compiler.opened.map fun waiting => waiting.options.fatalWarnings).getD fatalWarnings

/-- The report on a request is about what waits and the text behind it. -/
theorem compile_reportsOn {compiler after : Compiler} {log logged : TransactionLog}
    {request : CompileRequest} {report : CompileReport} (wellFormed : compiler.WellFormed log)
    (compiled : compiler.compile log request = .ok (report, after, logged)) :
    ReportsOn (compiler.sourceWith request.text)
      (compiler.fatalWarnings request.options.fatalWarnings)
      report.verdict report.diagnostics := by
  obtain ⟨transaction, allocated, chosen, -, -, -, answered⟩ :=
    compile_eq_settleReading wellFormed request
  obtain ⟨rfl, -⟩ := Prod.mk.inj (Except.ok.inj (compiled.symm.trans answered))
  have reports := settleReading_reportsOn compiler.checker allocated
    (transaction.continuedBy request.text) (transaction.continuedBy request.text).source
  unfold transactionFor at chosen
  unfold sourceWith fatalWarnings
  split at chosen
  · next waits =>
    obtain ⟨rfl, -⟩ := Prod.mk.inj chosen
    rw [waits]
    exact reports
  · next unopened =>
    obtain ⟨rfl, -⟩ := Prod.mk.inj chosen
    rw [unopened]
    exact reports

end Compiler

end IncrementalC
