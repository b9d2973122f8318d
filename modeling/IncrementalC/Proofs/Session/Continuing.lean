import IncrementalC.Proofs.Compilation.Rollback
import IncrementalC.Proofs.Session.Submitting

/-!
Contract: unfinished input, and the answer that announces it.

Input waits as text that is to be placed in a function, or in a transaction. Submitted text can go
from the first way to the second, when raw input is turned on in between, and is then in the second
way alone.

Owns:
- when submitted text is answered by waiting;
- what dropping unfinished input changes.

Does not own: that input waits in one way at most, or what waiting input becomes when more is
submitted.
-/

namespace IncrementalC

/-! ## Dropping what waits -/

namespace DeclarationTable

/-- Forgetting an owner without records changes nothing. -/
theorem forget_of_untouched {table : DeclarationTable} {owner : TransactionId}
    (untouched : ∀ record ∈ table.records, record.owner ≠ owner) :
    (table.forget owner).2 = table := by
  have unowned : table.records.filter (DeclarationRecord.isLiveOf owner) = [] := by
    refine List.filter_eq_nil_iff.mpr fun record member live => ?_
    exact untouched record member (of_decide_eq_true live).1
  have records := (forget_records table owner).trans (Compiler.forget_untouched untouched)
  have index : (table.forget owner).2.index = table.index := by
    change List.foldl _ table.index (table.records.filter _) = _
    rw [unowned]
    rfl
  exact congrArg₂ DeclarationTable.mk records index

end DeclarationTable

namespace Compiler

/-- A transaction that waits has declared nothing and has no code, so nothing is taken back with
it. -/
theorem WellFormed.abandonOpen_eq {compiler : Compiler} {log : TransactionLog}
    (wellFormed : compiler.WellFormed log) :
    compiler.abandonOpen.2 = { compiler with opened := none } := by
  obtain ⟨checker, opened⟩ := compiler
  cases opened with
  | none => rfl
  | some waiting =>
    have untouched := (wellFormed.opened waiting rfl).untouched
    change Compiler.mk (checker.forget waiting.id) none = _
    unfold Checker.forget
    rw [DeclarationTable.forget_of_untouched untouched.records, dropUnit_untouched untouched.units]

end Compiler

namespace Session

variable {session after : Session} {outcome : Outcome}

/-- The answer of a submission announces what it leaves: it is the answer of waiting exactly if
there is unfinished input. -/
def Announces (outcome : Outcome) (after : Session) : Prop :=
  outcome.verdict = .moreInputExpected ↔ after.isContinuing = true

theorem cancelContinuation_eq (sound : session.Sound) :
    cancelContinuation session =
      .ok (⟨⟩, { session with buffer := none, compiler.opened := none }) := by
  change Except.ok (PUnit.unit,
    { session with buffer := none, compiler := session.compiler.abandonOpen.2 }) = _
  rw [sound.compiler.abandonOpen_eq]

/-! ## Submitted text -/

/-- An answer that is not that of waiting announces that nothing waits. -/
theorem announces_settled (settled : outcome.verdict ≠ .moreInputExpected)
    (unbuffered : after.buffer = none) (unopened : after.compiler.opened = none) :
    Announces outcome after := by
  simp [Announces, settled, isContinuing, unbuffered, unopened]

/-- Text that is compiled while no text waits to be placed in a function waits in its
transaction, or not at all. -/
theorem compileAndRun_announces (sound : session.Sound) (unbuffered : session.buffer = none)
    (text : String) (options : TransactionOptions) (entry : Option String) :
    Ends (compileAndRun text options entry) session Announces := by
  intro outcome after ran
  obtain ⟨keeps, closed⟩ := compileAndRun_keeps sound text options entry outcome after ran
  by_cases waits : outcome.verdict = .moreInputExpected
  · obtain ⟨report, compiler, log, compiled, same, left⟩ :=
      compileAndRun_verdict text options entry session outcome after ran
    have more := same.symm.trans waits
    obtain ⟨waiting, opened, -⟩ :=
      Compiler.compile_moreInputExpected sound.compiler.toWellFormed compiled more
    have after_eq := left (more ▸ nofun)
    refine ⟨fun _ => ?_, fun _ => waits⟩
    rw [isContinuing, after_eq, opened]
    exact Bool.or_true _
  · exact announces_settled waits (keeps.buffer.trans unbuffered) (closed waits)

theorem echoValue_compiler (mode : InputMode) (value : Option Value) :
    Ends (echoValue mode value) session fun _ after => after.compiler = session.compiler := by
  unfold echoValue
  split
  · exact ends_modify rfl
  · exact ends_pure rfl

/-- Text that was placed in a function leaves no transaction open, whatever the parser wants. -/
theorem runWrapped_closes (sound : session.Sound) (mode : InputMode) (text : String) :
    Ends (runWrapped mode text) session fun _ after => after.compiler.opened = none := by
  unfold runWrapped
  apply ends_bind
  intro wrapped between wraps
  have soundBetween := (wrapInput_course sound.course mode text wrapped between wraps).sound
  apply ends_bind
  refine (compileAndRun_keeps soundBetween _ _ _).mono ?_
  rintro compiled left ⟨-, closed⟩
  dsimp only
  split
  · apply ends_bind
    refine abandonOpen_keeps.mono ?_
    rintro _ abandoned ⟨-, closed⟩
    apply ends_bind
    apply ends_pure
    apply ends_bind
    exact (echoValue_compiler _ _).mono fun _ _ same => ends_pure (same ▸ closed)
  · next settled =>
    apply ends_bind
    apply ends_pure
    apply ends_bind
    exact (echoValue_compiler _ _).mono fun _ _ same => ends_pure (same ▸ closed settled)

theorem runWrapped_announces (sound : session.Sound) (unbuffered : session.buffer = none)
    (mode : InputMode) (text : String) : Ends (runWrapped mode text) session Announces := by
  intro outcome after ran
  exact announces_settled (runWrapped_settles mode text session outcome after ran)
    (runWrapped_unbuffered sound unbuffered mode text outcome after ran)
    (runWrapped_closes sound mode text outcome after ran)

theorem run_announces (sound : session.Sound) (submission : Submission) (text : String) :
    Ends (submission.run text) session Announces := by
  have emptied : Sound { session with buffer := none } := sound.of_same rfl rfl rfl
  exact run_ends (fun mode whole _ => runWrapped_announces emptied rfl mode whole)
    (fun _ chunk options => compileAndRun_announces emptied rfl chunk options none)
    fun waiting => ⟨fun _ => rfl, fun _ => rfl⟩

/-! ## Any operations -/

/-- After any operations, submitted text is answered by waiting exactly if there is unfinished
input afterwards, input waits in one way at most, and dropping it changes nothing else: nothing
waits then, and the log and the declarations are as before. -/
theorem answers_announce_unfinished_input {config : Config} {source : LibrarySource}
    {files : Files.FileTree} {operations : List Operation} {answers : List Answer}
    {session : Session}
    (performed : performAll operations (new config source files) = .ok (answers, session)) :
    (∀ submission text outcome after,
      Submission.run submission text session = .ok (outcome, after) →
      (outcome.verdict = .moreInputExpected ↔ after.isContinuing = true)) ∧
    ¬(session.buffer.isSome = true ∧ session.compiler.opened.isSome = true) ∧
    ∃ after, cancelContinuation session = .ok (⟨⟩, after) ∧
      after = { session with buffer := none, compiler.opened := none } ∧
      after.isContinuing = false ∧ after.log = session.log ∧
      after.compiler.checker = session.compiler.checker := by
  have sound := performAll_ends operations (sound_new config source files) answers session performed
  have apart := performAll_apart operations (sound_new config source files)
    (apart_of_unbuffered rfl) answers session performed
  refine ⟨fun submission text outcome after ran => ?_, ?_, ?_⟩
  · exact run_announces sound submission text outcome after ran
  · rintro ⟨buffered, opened⟩
    rw [apart buffered] at opened
    cases opened
  · exact ⟨_, cancelContinuation_eq sound, rfl, rfl, rfl, rfl⟩

/-- Text waits to be placed in a function, and raw input is turned on. Its continuation is then
compiled with it as it is, so that both wait in a transaction. Dropped instead, it leaves
nothing. -/
theorem raw_input_redirects_what_waits :
    let start := new .standard .sharedObjects []
    ∃ answers session outcome waiting dropped,
      performAll [.submit .evaluate "1 + /*", .setRawInput true] start = .ok (answers, session) ∧
      session.buffer = some ⟨.evaluate, "1 + /*"⟩ ∧ session.compiler.opened = none ∧
      submit .evaluate "2" session = .ok (outcome, waiting) ∧
      outcome.verdict = .moreInputExpected ∧ waiting.isContinuing = true ∧
      waiting.buffer = none ∧ waiting.compiler.opened.isSome = true ∧
      cancelContinuation session = .ok (⟨⟩, dropped) ∧ dropped.isContinuing = false := by
  intro start
  have facts :
      ((performAll [.submit .evaluate "1 + /*", .setRawInput true] start).toOption.bind fun begun =>
        (submit .evaluate "2" begun.2).toOption.map fun continued =>
          decide (begun.2.buffer = some ⟨.evaluate, "1 + /*"⟩ ∧
            continued.1.verdict = .moreInputExpected ∧ continued.2.buffer = none ∧
            continued.2.compiler.opened.isSome = true)) = some true := by decide +kernel
  obtain ⟨⟨answers, session⟩, performed, facts⟩ := Option.bind_eq_some_iff.mp facts
  obtain ⟨⟨outcome, waiting⟩, submitted, facts⟩ := Option.map_eq_some_iff.mp facts
  obtain ⟨buffered, waits, unbuffered, opened⟩ := of_decide_eq_true facts
  have performed := ok_of_toOption performed
  have submitted := ok_of_toOption submitted
  obtain ⟨announced, apart, dropped, cancelled, -, ended, -⟩ :=
    answers_announce_unfinished_input performed
  have continues := (announced (.inMode .evaluate) "2" outcome waiting submitted).mp waits
  have unopened : session.compiler.opened = none := by
    rw [buffered] at apart
    simpa using apart
  exact ⟨answers, session, outcome, waiting, dropped, performed, buffered, unopened, submitted,
    waits, continues, unbuffered, opened, cancelled, ended⟩

end Session

end IncrementalC
