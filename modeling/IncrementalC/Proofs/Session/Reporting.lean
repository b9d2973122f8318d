import IncrementalC.Proofs.Compilation.Reports
import IncrementalC.Proofs.Input.Balance
import IncrementalC.Proofs.Session.Submitting
import IncrementalC.Proofs.Source.LineWindow

/-!
Contract: what is reported about submitted text.

Text is compiled as it is, or is placed in a function first. Reports about placed text are moved to
the user's own text, and when the parser wants more of it, the answer is a failure all the same.

Owns:
- where the reports of an answer stand, and which spans are turned round when they are moved;
- which failures have no report that explains them.

Does not own: what the parser or the checker reports.
-/

namespace IncrementalC.Session

variable {session after : Session} {submission : Submission} {text whole : String}
  {mode : InputMode} {outcome : Outcome}

/-! ## Reports -/

/-- What placed text is compiled as. -/
def placed (session : Session) (mode : InputMode) (text : String) : Input.WrappedInput :=
  (Input.wrap session.names text.toList (wrapKind mode text)
    session.compiler.checker.table.liveNames).1

/-- The request that placed text is compiled with. -/
def placedRequest (session : Session) (mode : InputMode) (text : String) : CompileRequest where
  text := (session.placed mode text).text
  options := TransactionOptions.execution.withFatalWarnings session.config.fatalWarnings
  entry := some (session.placed mode text).entry

/-- Whether warnings are fatal to submitted text. A transaction that waits decides for the text
that continues it. -/
def fatalWarnings (session : Session) : Bool :=
  session.compiler.fatalWarnings session.config.fatalWarnings

theorem compileAndRun_reportsOn (sound : session.Sound) (text : String)
    (options : TransactionOptions) (entry : Option String) :
    Ends (compileAndRun text options entry) session fun outcome _ =>
      ReportsOn (session.compiler.sourceWith text) session.fatalWarnings outcome.verdict
        outcome.diagnostics := by
  refine (compileAndRun_report text options entry session).mono ?_
  rintro outcome after ⟨report, compiler, log, compiled, verdict, diagnostics, -⟩
  have reports := Compiler.compile_reportsOn sound.compiler.toWellFormed compiled
  rw [verdict, diagnostics, fatalWarnings]
  exact reports

/-- What is reported about placed text is moved to the user's own text, and if the parser wants
more, the answer is a failure. -/
theorem runWrapped_report (mode : InputMode) (text : String) (session : Session) :
    Ends (runWrapped mode text) session fun outcome _ =>
      ∃ report compiler log,
        session.compiler.compile session.log (session.placedRequest mode text) =
          .ok (report, compiler, log) ∧
        outcome.verdict =
          (if report.verdict = .moreInputExpected then .failure else report.verdict) ∧
        outcome.diagnostics = report.diagnostics.map fun diagnostic =>
          diagnostic.remap (session.placed mode text).window := by
  unfold runWrapped
  apply ends_bind
  intro wrapped between wraps
  cases wraps
  apply ends_bind
  refine (compileAndRun_report _ _ _ _).mono ?_
  rintro compiled left ⟨report, compiler, log, answered, same, diagnostics, -⟩
  dsimp only
  rw [same, diagnostics]
  split
  · next waits =>
    apply ends_bind
    intro _ abandoned _
    apply ends_bind
    apply ends_pure
    apply ends_bind
    intro _ echoed _
    exact ends_pure ⟨report, compiler, log, answered, (if_pos waits).symm, rfl⟩
  · next settled =>
    apply ends_bind
    apply ends_pure
    apply ends_bind
    intro _ echoed _
    exact ends_pure ⟨report, compiler, log, answered, (if_neg settled).symm, rfl⟩

/-- What is reported about text that a submission places is about the text that it is placed in. -/
theorem run_report_of_placing (sound : session.Sound) (apart : session.Apart)
    (placing : session.placing? submission text = some (mode, whole)) :
    Ends (submission.run text) session fun outcome _ =>
      ∃ report compiler log,
        session.compiler.compile session.log (session.placedRequest mode whole) =
          .ok (report, compiler, log) ∧
        ReportsOn (session.placed mode whole).text session.fatalWarnings report.verdict
          report.diagnostics ∧
        outcome.verdict =
          (if report.verdict = .moreInputExpected then .failure else report.verdict) ∧
        outcome.diagnostics = report.diagnostics.map fun diagnostic =>
          diagnostic.remap (session.placed mode whole).window := by
  intro outcome after ran
  rw [run_of_placing placing] at ran
  obtain ⟨report, compiler, log, compiled, answered, moved⟩ :=
    runWrapped_report mode whole { session with buffer := none } outcome after ran
  have about := Compiler.compile_reportsOn sound.compiler.toWellFormed compiled
  rw [Compiler.sourceWith_of_unopened (unopened_of_placing apart placing)] at about
  exact ⟨report, compiler, log, compiled, about, answered, moved⟩

/-! ## Moved spans -/

/-- A report about placed text that is moved to the user's text ends before it starts exactly if it
starts in the user's last line, behind the first column, and ends in the closing lines. -/
theorem inverted_remap_iff {diagnostic : Diagnostic}
    (stands : diagnostic.span.StandsIn (session.placed mode whole).text.toList) :
    (diagnostic.remap (session.placed mode whole).window).span.Inverted ↔
      diagnostic.span.start.line = 1 + (session.placed mode whole).window.userLines ∧
        1 < diagnostic.span.start.column ∧
        1 + (session.placed mode whole).window.userLines < diagnostic.span.stop.line :=
  LineWindow.inverted_mapSpan_iff Nat.one_ne_zero
    (Nat.lt_of_lt_of_le Nat.zero_lt_one (Nat.le_max_right _ 1)) stands.ordered stands.column

/-- Moving places to the user's text keeps their order except where the window says so, for every
window and all places. What is reported about placed text stands in order before it is moved, and
is turned round exactly if it starts in the user's last line, behind the first column, and ends in
the closing lines. -/
theorem spans_into_the_closing_lines_are_inverted {config : Config} {source : LibrarySource}
    {files : Files.FileTree} {operations : List Operation} {answers : List Answer}
    (performed : performAll operations (new config source files) = .ok (answers, session)) :
    (∀ (window : LineWindow) (earlier later : Position), earlier.AtOrBefore later →
      (¬(window.mapPosition earlier).AtOrBefore (window.mapPosition later) ↔
        window.Swaps earlier later)) ∧
    ∀ submission text mode whole outcome after,
      session.placing? submission text = some (mode, whole) →
      submission.run text session = .ok (outcome, after) →
      ∃ report compiler log,
        session.compiler.compile session.log (session.placedRequest mode whole) =
          .ok (report, compiler, log) ∧
        outcome.diagnostics = report.diagnostics.map (fun diagnostic =>
          diagnostic.remap (session.placed mode whole).window) ∧
        ∀ diagnostic ∈ report.diagnostics, ¬diagnostic.span.Inverted ∧
          ((diagnostic.remap (session.placed mode whole).window).span.Inverted ↔
            diagnostic.span.start.line = 1 + (session.placed mode whole).window.userLines ∧
              1 < diagnostic.span.start.column ∧
              1 + (session.placed mode whole).window.userLines < diagnostic.span.stop.line) := by
  have sound := performAll_ends operations (sound_new config source files) answers session performed
  have apart := performAll_apart operations (sound_new config source files)
    (apart_of_unbuffered rfl) answers session performed
  refine ⟨fun window earlier later => LineWindow.swaps_iff, ?_⟩
  intro submission text mode whole outcome after placing ran
  obtain ⟨report, compiler, log, compiled, about, -, moved⟩ :=
    run_report_of_placing sound apart placing outcome after ran
  refine ⟨report, compiler, log, compiled, moved, fun diagnostic member => ?_⟩
  have stands := about.stand diagnostic member
  exact ⟨not_not_intro stands.ordered, inverted_remap_iff stands⟩

/-- The last statement has no semicolon of its own, so the report about it goes on to the one in the
closing line, and is moved to a span that ends in front of its start. -/
theorem a_return_without_semicolon_is_inverted :
    let session := new .standard .sharedObjects []
    let text := "1; return 1"
    let window := (session.placed .execute text).window
    ∃ outcome after, ∃ diagnostic : Diagnostic,
      performAll [] session = .ok ([], session) ∧
      session.placing? (.inMode .execute) text = some (.execute, text) ∧
      Submission.run (.inMode .execute) text session = .ok (outcome, after) ∧
      outcome.diagnostics = [diagnostic.remap window] ∧ ¬diagnostic.span.Inverted ∧
      diagnostic.span.start.line = 2 ∧ 2 < diagnostic.span.stop.line ∧
      (diagnostic.remap window).span = ⟨.atColumn 1 4, .atColumn 1 1⟩ ∧
      (diagnostic.remap window).span.Inverted := by
  intro session text window
  have performed : performAll [] session = .ok ([], session) := rfl
  have placing : session.placing? (.inMode .execute) text = some (.execute, text) := by
    decide +kernel
  have lines : window.userLines = 1 := by decide +kernel
  have facts : ((Submission.run (.inMode .execute) text session).toOption.map fun ended =>
      decide (ended.1.diagnostics.map Diagnostic.span = [⟨.atColumn 1 4, .atColumn 1 1⟩])) =
        some true := by decide +kernel
  obtain ⟨⟨outcome, after⟩, ran, facts⟩ := Option.map_eq_some_iff.mp facts
  have ran := ok_of_toOption ran
  have spans : outcome.diagnostics.map Diagnostic.span = [⟨.atColumn 1 4, .atColumn 1 1⟩] :=
    of_decide_eq_true facts
  obtain ⟨report, _, _, -, moved, each⟩ := (spans_into_the_closing_lines_are_inverted performed).2
    (.inMode .execute) text .execute text outcome after placing ran
  rw [moved] at spans
  obtain ⟨diagnostic, alone⟩ : ∃ diagnostic, report.diagnostics = [diagnostic] :=
    List.length_eq_one_iff.mp (by simpa using congrArg List.length spans)
  rw [alone] at spans moved each
  have span : (diagnostic.remap window).span = ⟨.atColumn 1 4, .atColumn 1 1⟩ :=
    List.singleton_inj.mp spans
  have inverted : (diagnostic.remap window).span.Inverted := by
    rw [span]
    decide
  obtain ⟨upright, crosses⟩ := each diagnostic (List.mem_singleton_self diagnostic)
  obtain ⟨starts, -, stops⟩ := crosses.mp inverted
  rw [lines] at starts stops
  exact ⟨outcome, after, diagnostic, performed, placing, ran, moved, upright, starts, stops, span,
    inverted⟩

/-! ## Failures -/

/-- The submission places text in a function of which the parser still wants more. -/
def Stuck (session : Session) (submission : Submission) (text : String) : Prop :=
  ∃ mode whole, session.placing? submission text = some (mode, whole) ∧
    Syntax.parseProgram (session.placed mode whole).text = .error .incomplete

theorem not_stuck_of_not_placing (placing : session.placing? submission text = none) :
    ¬session.Stuck submission text := by
  rintro ⟨mode, whole, placed, -⟩
  cases placing.symm.trans placed

theorem stuck_iff_of_placing (placing : session.placing? submission text = some (mode, whole)) :
    session.Stuck submission text ↔
      Syntax.parseProgram (session.placed mode whole).text = .error .incomplete := by
  refine ⟨?_, fun wants => ⟨mode, whole, placing, wants⟩⟩
  rintro ⟨_, _, placed, wants⟩
  cases placing.symm.trans placed
  exact wants

/-- Moving a report does not change how serious it is. -/
theorem exists_fatal_remap_iff {reports : List Diagnostic} {window : LineWindow} {fatal : Bool} :
    (∃ moved ∈ reports.map (fun diagnostic => diagnostic.remap window),
        moved.isFatal fatal = true) ↔
      ∃ diagnostic ∈ reports, diagnostic.isFatal fatal = true := by
  simp only [List.mem_map, exists_exists_and_eq_and]
  exact Iff.rfl

/-- Text that is not placed fails with a reason. -/
theorem run_explains_of_not_placing (sound : session.Sound)
    (placing : session.placing? submission text = none) :
    Ends (submission.run text) session fun outcome _ => outcome.verdict = .failure →
      ∃ diagnostic ∈ outcome.diagnostics, diagnostic.isFatal session.fatalWarnings = true := by
  have emptied : Sound { session with buffer := none } := sound.of_same rfl rfl rfl
  refine run_ends (fun mode whole placed => ?_) (fun _ chunk options => ?_) fun waiting failed => ?_
  · cases placing.symm.trans placed
  · exact (compileAndRun_reportsOn emptied chunk options none).mono fun _ _ about => about.explain
  · cases failed

/-- Text that is placed fails with a reason, unless the parser wants more of it. Then it fails
without one. -/
theorem run_explains_of_placing (sound : session.Sound) (apart : session.Apart)
    (placing : session.placing? submission text = some (mode, whole)) :
    Ends (submission.run text) session fun outcome _ =>
      (session.Stuck submission text → outcome.verdict = .failure ∧ outcome.diagnostics = []) ∧
      (¬session.Stuck submission text → outcome.verdict = .failure →
        ∃ diagnostic ∈ outcome.diagnostics, diagnostic.isFatal session.fatalWarnings = true) := by
  refine (run_report_of_placing sound apart placing).mono ?_
  rintro outcome after ⟨report, -, -, -, about, answered, moved⟩
  rw [stuck_iff_of_placing placing, ← about.waits, answered, moved]
  refine ⟨fun waits => ⟨if_pos waits, ?_⟩, fun settled failed => ?_⟩
  · rw [about.silent waits, List.map_nil]
  · rw [if_neg settled] at failed
    exact exists_fatal_remap_iff.mpr (about.explain failed)

/-- A failure has a report that is fatal unless the parser wants more of placed text. Then there is
no report at all, and the text closes a bracket that it has not opened. -/
theorem failures_are_explained_unless_stuck {config : Config} {source : LibrarySource}
    {files : Files.FileTree} {operations : List Operation} {answers : List Answer}
    (performed : performAll operations (new config source files) = .ok (answers, session))
    (ran : submission.run text session = .ok (outcome, after)) :
    (outcome.verdict = .failure →
      ((∃ diagnostic ∈ outcome.diagnostics, diagnostic.isFatal session.fatalWarnings = true) ↔
        ¬session.Stuck submission text)) ∧
    (session.Stuck submission text →
      outcome.verdict = .failure ∧ outcome.diagnostics = [] ∧
        ∃ mode whole, session.placing? submission text = some (mode, whole) ∧
          ¬Input.NeverOvercloses (Input.scan .code whole.toList).1) := by
  have sound := performAll_ends operations (sound_new config source files) answers session performed
  have apart := performAll_apart operations (sound_new config source files)
    (apart_of_unbuffered rfl) answers session performed
  cases placing : session.placing? submission text with
  | none =>
    have unstuck := not_stuck_of_not_placing placing
    exact ⟨fun failed => iff_of_true
        (run_explains_of_not_placing sound placing outcome after ran failed) unstuck,
      fun stuck => absurd stuck unstuck⟩
  | some chosen =>
    obtain ⟨mode, whole⟩ := chosen
    obtain ⟨silent, explained⟩ := run_explains_of_placing sound apart placing outcome after ran
    refine ⟨fun failed => ⟨?_, fun unstuck => explained unstuck failed⟩, fun stuck => ?_⟩
    · rintro ⟨diagnostic, member, -⟩ stuck
      rw [(silent stuck).2] at member
      exact List.not_mem_nil member
    · have wants := (stuck_iff_of_placing placing).mp stuck
      exact ⟨(silent stuck).1, (silent stuck).2, mode, whole, rfl, fun never =>
        Input.not_incomplete_of_isComplete (isComplete_of_placing placing) never wants⟩

/-- The first brace closes the function that the text is placed in, and the last two are never
closed. The parser wants more, and the failure has no report. -/
theorem an_unclosed_function_behind_the_wrapper_fails_silently :
    let session := new .standard .sharedObjects []
    let text := "\x7d int g() \x7b \x7b"
    ∃ outcome after,
      performAll [] session = .ok ([], session) ∧
      Submission.run (.inMode .execute) text session = .ok (outcome, after) ∧
      outcome.verdict = .failure ∧ outcome.diagnostics = [] ∧
      session.Stuck (.inMode .execute) text := by
  intro session text
  have performed : performAll [] session = .ok ([], session) := rfl
  have facts : ((Submission.run (.inMode .execute) text session).toOption.map fun ended =>
      decide (ended.1.verdict = .failure ∧ ended.1.diagnostics = [])) = some true := by
    decide +kernel
  obtain ⟨⟨outcome, after⟩, ran, facts⟩ := Option.map_eq_some_iff.mp facts
  obtain ⟨failed, silent⟩ := of_decide_eq_true facts
  have ran := ok_of_toOption ran
  have explained := (failures_are_explained_unless_stuck performed ran).1 failed
  refine ⟨outcome, after, performed, ran, failed, silent, ?_⟩
  by_contra unstuck
  obtain ⟨diagnostic, member, -⟩ := explained.mpr unstuck
  rw [silent] at member
  exact List.not_mem_nil member

end IncrementalC.Session
