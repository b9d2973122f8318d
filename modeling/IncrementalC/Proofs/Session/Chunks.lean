import IncrementalC.Proofs.Compilation.Chunks
import IncrementalC.Proofs.Input.Wrapping
import IncrementalC.Proofs.Session.Performing

/-!
Contract: submitting text in two chunks, compared with submitting the text.

Input waits in one of two ways: as text that is to be placed in a function, or in a transaction
for declarations. The first chunk chooses the way. If the whole text would choose the same one,
the chunks are answered as the text is. A first chunk that ends in front of the first token, or
inside it, can choose declarations where the text would be placed in a function, and is then
never accepted.

Owns: the ways to submit text and their choice, and the second chunk after a first one that was
answered by waiting.

Does not own: operations between the chunks.
-/

namespace IncrementalC.Session

open Input (Joins)

/-- The ways to submit text. -/
inductive Submission where
  /-- For one purpose. -/
  | inMode (mode : InputMode)
  /-- For the purpose that the text calls for. -/
  | process
deriving DecidableEq, Repr

namespace Submission

def run : Submission → String → Step Outcome
  | .inMode mode, text => submit mode text
  | .process, text => Session.process text

/-- The purpose of text that is placed in a function, if any text is. -/
def wrapping? : Submission → Option InputMode
  | .inMode .declare | .inMode .headerOnly => none
  | .inMode mode => some mode
  | .process => some .evaluate

/-- The options of text that is not placed in a function. -/
def options : Submission → TransactionOptions
  | .inMode .declare | .process => .declaration
  | .inMode .headerOnly => .headerOnly
  | .inMode _ => .execution

end Submission

/-- Whether a session places text in a function, when nothing is unfinished. -/
def wraps (session : Session) (submission : Submission) (text : String) : Bool :=
  submission.wrapping?.isSome && !session.config.rawInput && Input.needsWrapping text.toList

variable {session : Session} {submission : Submission} {text : String}

/-! ## The choice -/

theorem isContinuing_eq_false_iff :
    session.isContinuing = false ↔ session.buffer = none ∧ session.compiler.opened = none := by
  simp [isContinuing]

/-- How text that may have to be placed in a function is taken. -/
theorem submitWrapped_eq (mode : InputMode) (text : String) (session : Session) :
    submitWrapped mode text session =
      if session.config.rawInput || !Input.needsWrapping text.toList then
        compileAndRun text .execution none session
      else if Input.isComplete text.toList then runWrapped mode text session
      else .ok (.buffered, { session with buffer := some ⟨mode, text⟩ }) := by
  change (if _ then _ else _ : Step Outcome) session = _
  split
  · rfl
  · split <;> rfl

section

variable (fresh : session.isContinuing = false)

include fresh

theorem submit_of_fresh (mode : InputMode) (text : String) :
    submit mode text session =
      (match mode with
        | .declare => compileAndRun text .declaration none
        | .headerOnly => compileAndRun text .headerOnly none
        | .evaluate | .echo | .execute => submitWrapped mode text) session := by
  obtain ⟨unbuffered, unopened⟩ := isContinuing_eq_false_iff.mp fresh
  unfold submit
  simp only [bind, StateT.bind, get, getThe, MonadStateOf.get, StateT.get, pure, Except.pure,
    Except.bind, unbuffered, unopened]
  cases mode <;> rfl

theorem process_of_fresh (text : String) :
    process text session =
      if session.config.rawInput || !Input.needsWrapping text.toList then
        submit .declare text session
      else submit .evaluate text session := by
  change (if session.isContinuing then _ else _ : Step Outcome) session = _
  rw [fresh, if_neg Bool.false_ne_true]
  split <;> rfl

/-- Text that is not placed in a function is compiled as it is. -/
theorem run_unwrapped (unwrapped : session.wraps submission text = false) :
    submission.run text session = compileAndRun text submission.options none session := by
  have plain : submission.wrapping?.isSome = true →
      (session.config.rawInput || !Input.needsWrapping text.toList) = true := by
    intro purpose
    rw [wraps, purpose, Bool.true_and, Bool.and_eq_false_iff] at unwrapped
    simpa using unwrapped
  cases submission with
  | inMode mode =>
    refine (submit_of_fresh fresh mode text).trans ?_
    cases mode with
    | declare | headerOnly => rfl
    | evaluate | echo | execute => exact (submitWrapped_eq _ _ _).trans (if_pos (plain rfl))
  | process =>
    refine (process_of_fresh fresh text).trans ((if_pos (plain rfl)).trans ?_)
    exact submit_of_fresh fresh .declare text

/-- Other text is placed in a function for the purpose of the submission. -/
theorem run_wrapped (wrapped : session.wraps submission text = true) :
    ∃ mode, submission.wrapping? = some mode ∧
      submission.run text session = submitWrapped mode text session := by
  rw [wraps, Bool.and_assoc, Bool.and_eq_true] at wrapped
  obtain ⟨purpose, needs⟩ := wrapped
  have other : ¬(session.config.rawInput || !Input.needsWrapping text.toList) = true := by
    simpa using needs
  cases submission with
  | inMode mode =>
    cases mode with
    | declare | headerOnly => cases purpose
    | evaluate => exact ⟨_, rfl, submit_of_fresh fresh .evaluate text⟩
    | echo => exact ⟨_, rfl, submit_of_fresh fresh .echo text⟩
    | execute => exact ⟨_, rfl, submit_of_fresh fresh .execute text⟩
  | process =>
    refine ⟨.evaluate, rfl, (process_of_fresh fresh text).trans ((if_neg other).trans ?_)⟩
    exact submit_of_fresh fresh .evaluate text

end

/-! ## The second chunk -/

/-- Text that waits to be placed in a function is taken together with what comes next. -/
theorem run_buffered (unbuffered : session.buffer = none) (submission : Submission)
    (mode : InputMode) (first second : String) :
    submission.run second { session with buffer := some ⟨mode, first⟩ } =
      submitWrapped mode (Input.joinContinuation first second) session := by
  have same : { session with buffer := none } = session := by rw [← unbuffered]
  have taken : submission.run second { session with buffer := some ⟨mode, first⟩ } =
      submitWrapped mode (Input.joinContinuation first second) { session with buffer := none } := by
    cases submission <;> rfl
  rw [taken, same]

/-- An open transaction takes what comes next as declarations. -/
theorem run_opened (unbuffered : session.buffer = none)
    (opened : session.compiler.opened.isSome = true) (submission : Submission) (second : String) :
    submission.run second session = compileAndRun second .declaration none session := by
  have submitted : ∀ mode, submit mode second session = compileAndRun second .declaration none session := by
    intro mode
    unfold submit
    simp only [bind, StateT.bind, get, getThe, MonadStateOf.get, StateT.get, pure, Except.pure,
      Except.bind, unbuffered, opened]
    rfl
  cases submission with
  | inMode mode => exact submitted mode
  | process =>
    change (if session.isContinuing then _ else _ : Step Outcome) session = _
    rw [isContinuing, opened, Bool.or_true, if_pos rfl]
    exact submitted .evaluate

/-- Text that is placed in a function is never answered by waiting once it is complete. -/
theorem runWrapped_settles (mode : InputMode) (text : String) (session : Session) :
    Ends (runWrapped mode text) session fun outcome _ => outcome.verdict ≠ .moreInputExpected := by
  unfold runWrapped
  apply ends_bind
  intro wrapped between _
  apply ends_bind
  intro compiled ran _
  dsimp only
  split
  · apply ends_bind
    intro _ abandoned _
    apply ends_bind
    apply ends_pure
    apply ends_bind
    intro _ echoed _
    exact ends_pure nofun
  · rename_i settled
    apply ends_bind
    apply ends_pure
    apply ends_bind
    intro _ echoed _
    exact ends_pure settled

/-- Text to be placed in a function waits exactly while it is not complete. -/
theorem submitWrapped_waits {mode : InputMode} {text : String} {outcome : Outcome}
    {waiting : Session} (wrapped : session.wraps submission text = true)
    (begun : submitWrapped mode text session = .ok (outcome, waiting))
    (waits : outcome.verdict = .moreInputExpected) :
    Input.isComplete text.toList = false ∧
      waiting = { session with buffer := some ⟨mode, text⟩ } := by
  rw [wraps, Bool.and_assoc, Bool.and_eq_true] at wrapped
  rw [submitWrapped_eq, if_neg (by simpa using wrapped.2)] at begun
  split at begun
  · exact absurd waits (runWrapped_settles mode text session outcome waiting begun)
  · rename_i unfinished
    cases begun
    exact ⟨by simpa using unfinished, rfl⟩

/-- Text that does not read as a program does not compile. -/
theorem readable_of_success {checker : Checker} {log : TransactionLog}
    {transaction : Transaction} {reading : Except SourceError (List Syntax.Item)}
    (verdict : (Compiler.settleReading checker log transaction reading).1.verdict = .success) :
    ∃ program, reading = .ok program := by
  rcases reading with (_ | diagnostic) | program
  · cases verdict
  · cases verdict
  · exact ⟨program, rfl⟩

/-- What follows a request to compile text depends on its answer alone. -/
theorem compileAndRun_of_compile {text other : String} {options others : TransactionOptions}
    {entry made : Option String} {session after : Session}
    (same : compile ⟨text, options.withFatalWarnings session.config.fatalWarnings, entry, none⟩
        session =
      compile ⟨other, others.withFatalWarnings after.config.fatalWarnings, made, none⟩ after) :
    compileAndRun text options entry session = compileAndRun other others made after := by
  change (compile _ session >>= _) = (compile _ after >>= _)
  rw [same]

theorem compile_of_same {request other : CompileRequest} {session after : Session}
    (same : after.compiler.compile after.log request = session.compiler.compile session.log other)
    (rest : ∀ compiler log,
      { after with compiler, log } = { session with compiler, log }) :
    compile request after = compile other session := by
  have answers : ∀ (request : CompileRequest) (session : Session), compile request session =
      (match session.compiler.compile session.log request with
        | .ok (report, compiler, log) => .ok (report, { session with compiler, log })
        | .error misuse => .error (.misuse misuse)) := by
    intro request session
    change (guardMisuse _ session >>= _) = _
    cases session.compiler.compile session.log request <;> rfl
  rw [answers, answers, same]
  cases session.compiler.compile session.log other with
  | ok answer => exact congrArg (fun after => Except.ok (answer.1, after)) (rest _ _)
  | error misuse => rfl

/-- If the first chunk is answered by waiting in a transaction, the second one is answered as the
text that they make is when it is compiled as declarations. -/
theorem run_second_unwrapped (reported : session.compiler.checker.diagnostics = [])
    (fresh : session.isContinuing = false) {first : String} {options : TransactionOptions}
    {outcome : Outcome} {waiting : Session}
    (begun : compileAndRun first options none session = .ok (outcome, waiting))
    (waits : outcome.verdict = .moreInputExpected) (submission : Submission) (second : String) :
    submission.run second waiting =
      compileAndRun (Input.joinContinuation first second) options none session := by
  obtain ⟨unbuffered, unopened⟩ := isContinuing_eq_false_iff.mp fresh
  obtain ⟨report, compiler, log, answered, same, settles⟩ :=
    compileAndRun_verdict first options none session outcome waiting begun
  have more := same.symm.trans waits
  obtain ⟨text, joins, -, rfl, rfl⟩ :=
    (Compiler.Awaits.begun answered more).waits unopened
  cases joins
  have left := settles (more ▸ nofun)
  have opened : waiting.compiler.opened.isSome = true := by rw [left]; rfl
  have stays : waiting.buffer = none := by rw [left]; exact unbuffered
  refine (run_opened stays opened submission second).trans (compileAndRun_of_compile ?_)
  rw [left]
  apply compile_of_same
  · rw [Compiler.compile_collecting unopened, Compiler.taken_of_reported reported]
  · exact fun _ _ => rfl

/-- Compiled as declarations, only a program succeeds. -/
theorem program_of_success (reported : session.compiler.checker.diagnostics = [])
    (fresh : session.isContinuing = false) {text : String} {options : TransactionOptions}
    {outcome : Outcome} {after : Session}
    (ended : compileAndRun text options none session = .ok (outcome, after))
    (succeeded : outcome.verdict = .success) :
    ∃ program, Syntax.parseProgram text = .ok program := by
  obtain ⟨-, unopened⟩ := isContinuing_eq_false_iff.mp fresh
  obtain ⟨report, compiler, log, answered, same, -⟩ :=
    compileAndRun_verdict text options none session outcome after ended
  have settled := Except.ok.inj (answered.symm.trans (Compiler.compile_eq
    (Compiler.transactionFor_unopened unopened _) rfl reported))
  obtain ⟨program, read⟩ := readable_of_success (by rw [← settled]; exact same.symm.trans succeeded)
  refine ⟨program, ?_⟩
  have whole : (Transaction.continuedBy (Compiler.collecting session.log
      ⟨text, options.withFatalWarnings session.config.fatalWarnings, none, none⟩ "") text).source =
        text := Compiler.joinContinuation_empty text
  rw [whole] at read
  exact read

/-- A first chunk is answered by waiting, and then a second one comes. If the first chunk and the
text that both make are alike in whether they are placed in a function, the second chunk is
answered as the whole text would have been, and leaves the same session. If not, the first chunk
was taken as declarations and the whole text would be placed in a function. Then the second
chunk is answered as the whole text is when compiled as declarations, and never with success. -/
theorem first_chunk_chooses {config : Config} {source : LibrarySource} {files : Files.FileTree}
    {operations : List Operation} {answers : List Answer} {session waiting : Session}
    (performed : performAll operations (new config source files) = .ok (answers, session))
    (fresh : session.isContinuing = false) (submission : Submission) {first : String}
    {outcome : Outcome} (begun : submission.run first session = .ok (outcome, waiting))
    (waits : outcome.verdict = .moreInputExpected) (second : String) :
    ((∀ diagnostic, tokenize first ≠ .error (.invalid diagnostic)) →
      Joins first [second] (Input.joinContinuation first second)) ∧
    (session.wraps submission first =
        session.wraps submission (Input.joinContinuation first second) →
      submission.run second waiting =
        submission.run (Input.joinContinuation first second) session) ∧
    (session.wraps submission first ≠
        session.wraps submission (Input.joinContinuation first second) →
      session.wraps submission (Input.joinContinuation first second) = true ∧
      submission.run second waiting = compileAndRun (Input.joinContinuation first second)
        submission.options none session ∧
      ∀ answer after, submission.run second waiting = .ok (answer, after) →
        answer.verdict ≠ .success) := by
  have sound := performAll_ends operations (sound_new config source files) answers session performed
  have reported := sound.compiler.checker.reported
  refine ⟨fun readable => (Joins.done first).continued readable second, ?_⟩
  generalize joined : Input.joinContinuation first second = whole
  cases chosen : session.wraps submission first with
  | true =>
    obtain ⟨mode, purpose, ran⟩ := run_wrapped fresh chosen
    obtain ⟨unfinished, rfl⟩ := submitWrapped_waits chosen (ran.symm.trans begun) waits
    have wrapped : session.wraps submission whole = true := by
      rw [wraps, Bool.and_eq_true] at chosen
      rw [wraps, chosen.1, ← joined, Input.needsWrapping_joinContinuation chosen.2 unfinished]
      rfl
    refine ⟨fun _ => ?_, fun differs => absurd wrapped.symm differs⟩
    obtain ⟨other, same, whole⟩ := run_wrapped fresh wrapped
    obtain rfl := Option.some.inj (same.symm.trans purpose)
    rw [whole, ← joined]
    exact run_buffered (isContinuing_eq_false_iff.mp fresh).1 submission other first second
  | false =>
    have alone := (run_unwrapped fresh chosen).symm.trans begun
    have ran := run_second_unwrapped reported fresh alone waits submission second
    rw [joined] at ran
    refine ⟨fun alike => ?_, fun differs => ?_⟩
    · exact ran.trans (run_unwrapped fresh alike.symm).symm
    · have wrapped : session.wraps submission whole = true := by simpa using differs
      refine ⟨wrapped, ran, fun answer after ended succeeded => ?_⟩
      obtain ⟨program, read⟩ := program_of_success reported fresh (ran.symm.trans ended) succeeded
      rw [wraps, Input.needsWrapping_of_program read, Bool.and_false] at wrapped
      cases wrapped

/-- A first chunk that ends inside a comment is taken as declarations. The expression behind the
comment then fails, although the whole text has a value. -/
theorem a_comment_chooses_declarations :
    let session := new .standard .sharedObjects []
    let whole := Input.joinContinuation "/* note" "*/ 1 + 2"
    ∃ outcome waiting answer after value final,
      Submission.process.run "/* note" session = .ok (outcome, waiting) ∧
      outcome.verdict = .moreInputExpected ∧
      Joins "/* note" ["*/ 1 + 2"] whole ∧
      session.wraps .process "/* note" = false ∧ session.wraps .process whole = true ∧
      Submission.process.run "*/ 1 + 2" waiting = .ok (answer, after) ∧
      compileAndRun whole .declaration none session = .ok (answer, after) ∧
      answer.verdict = .failure ∧
      Submission.process.run whole session = .ok (value, final) ∧
      value.verdict = .success ∧ value.value = some (.int 3) := by
  intro session whole
  have facts :
      ((Submission.process.run "/* note" session).toOption.bind fun begun =>
        (Submission.process.run "*/ 1 + 2" begun.2).toOption.bind fun continued =>
          (Submission.process.run whole session).toOption.map fun ended =>
            decide (begun.1.verdict = .moreInputExpected ∧ continued.1.verdict = .failure ∧
              ended.1.verdict = .success ∧ ended.1.value = some (.int 3))) = some true := by
    decide +kernel
  obtain ⟨⟨outcome, waiting⟩, begun, facts⟩ := Option.bind_eq_some_iff.mp facts
  obtain ⟨⟨answer, after⟩, continued, facts⟩ := Option.bind_eq_some_iff.mp facts
  obtain ⟨⟨value, final⟩, ended, facts⟩ := Option.map_eq_some_iff.mp facts
  obtain ⟨waits, failed, succeeded, three⟩ := of_decide_eq_true facts
  have begun := ok_of_toOption begun
  have continued := ok_of_toOption continued
  have chosen : session.wraps .process "/* note" = false ∧ session.wraps .process whole = true := by
    decide +kernel
  have performed : performAll [] (new .standard .sharedObjects []) = .ok ([], session) := rfl
  obtain ⟨joins, -, differs⟩ :=
    first_chunk_chooses performed rfl .process begun waits "*/ 1 + 2"
  obtain ⟨-, declared, -⟩ := differs (by rw [chosen.1, chosen.2]; exact nofun)
  have readable : ∀ diagnostic, tokenize "/* note" ≠ .error (.invalid diagnostic) := by
    have unended : tokenize "/* note" = .error .incomplete := tokensFrom_of_unended rfl
    rw [unended]
    exact nofun
  exact ⟨outcome, waiting, answer, after, value, final, begun, waits, joins readable, chosen.1,
    chosen.2, continued, declared.symm.trans continued, failed, ok_of_toOption ended, succeeded,
    three⟩

end IncrementalC.Session
