import IncrementalC.Proofs.Analysis.Items
import IncrementalC.Proofs.Compilation.Chunks
import IncrementalC.Proofs.Input.Enclosure
import IncrementalC.Proofs.Session.Isolation

/-!
Contract: what placed input declares.

Input is placed in a function while no transaction waits for more input. If the text compiles, its
transaction declares the function and, if the input closes the function's brace, what follows.

Owns:
- that buffered input and a waiting transaction exclude each other;
- what the transaction of placed input declares, and its code.

Does not own: running the function.
-/

namespace IncrementalC

/-! ## Requests that succeed -/

/-- A request that begins a transaction and succeeds has a text that reads as a program, whose
analysis it leaves. -/
theorem Compiler.compile_success {compiler after : Compiler} {log logged : TransactionLog}
    {request : CompileRequest} {report : CompileReport} (wellFormed : compiler.WellFormed log)
    (unopened : compiler.opened = none)
    (answered : compiler.compile log request = .ok (report, after, logged))
    (succeeded : report.verdict = .success) :
    ∃ items transaction, Syntax.parseProgram request.text = .ok items ∧
      let analysis := analyze items compiler.checker.table report.transaction
      analysis.hasErrors = false ∧
      logged.get? report.transaction = some transaction ∧
      transaction.declarations = analysis.declarations ∧
      after.checker.table.records =
        analysis.table.records.map (DeclarationTable.shown report.transaction) ∧
      (after.checker.collectUnit report.transaction).1 = analysis.unit := by
  obtain ⟨begun, allocated, chosen, -, -, own, leaves⟩ := compile_cases wellFormed answered
  rw [transactionFor_unopened unopened] at chosen
  obtain ⟨rfl, rfl⟩ := Prod.mk.inj chosen
  have whole : (Transaction.continuedBy (Compiler.collecting log request "") request.text).source =
      request.text := joinContinuation_empty request.text
  rw [whole] at leaves
  rcases leaves with ⟨-, items, read, logs⟩ | ⟨failed, -⟩
  · have collected := congrArg Prod.fst logs.collectUnit
    obtain ⟨errorless, records, -, diagnostics, added⟩ := logs
    change report.transaction = ((Compiler.collecting log request "").continuedBy request.text).id
      at own
    rw [← own] at errorless records added collected
    have found := (TransactionLog.get?_place
      (((Compiler.collecting log request "").continuedBy request.text).committedWith
        (analyze items compiler.checker.table report.transaction).declarations diagnostics)
      log.allocate.2 report.transaction).trans (if_pos own.symm)
    exact ⟨items, _, read, errorless, added ▸ found, rfl, records, collected⟩
  · exact absurd succeeded failed

/-- A program that is one definition makes one declaration, of its function, and leaves the code of
that function alone. -/
theorem Analysis.analyze_definition {table : DeclarationTable} {owner : TransactionId}
    {type : Syntax.TypeName} {name : String} {parameters : List Syntax.Parameter}
    {body : List Syntax.Statement} {isExternal : Bool} {span : Span}
    (errorless : (analyze [.function type name parameters (some body) isExternal span] table
      owner).hasErrors = false) :
    let analysis := analyze [.function type name parameters (some body) isExternal span] table owner
    ∃ record function, analysis.table.records = table.records ++ [record] ∧
      record.id.number = table.records.length ∧ record.name = name ∧ function.name = name ∧
      analysis.declarations = [record.id] ∧ analysis.unit = ⟨some owner, [function], [], []⟩ := by
  obtain ⟨record, accepts⟩ := checkItem_accepts (errorless_of_cons errorless)
  obtain ⟨records, declarations, declares⟩ := accepts
  intro analysis
  change analysis.table.records = _ at records
  change analysis.declarations = _ at declarations
  change Declares owner _ _ record analysis.unit at declares
  generalize analysis.unit = unit at declares
  cases declares with
  | definition _ _ _ named => exact ⟨_, _, records, rfl, rfl, named, declarations, rfl⟩

namespace Session

variable {session : Session}

/-! ## Buffered input -/

/-- While input is buffered, no transaction waits. -/
def Apart (session : Session) : Prop :=
  session.buffer.isSome = true → session.compiler.opened = none

theorem apart_of_unbuffered (unbuffered : session.buffer = none) : session.Apart := by
  intro buffered
  rw [unbuffered] at buffered
  cases buffered

theorem Leaves.apart {text : Option String} {after : Session} (apart : session.Apart)
    (leaves : Leaves text session after) : after.Apart := by
  cases text with
  | none =>
    intro buffered
    rw [leaves.opened]
    exact apart (leaves.buffer ▸ buffered)
  | some text => exact fun _ => leaves.opened

theorem compileAndRun_unbuffered (sound : session.Sound) (unbuffered : session.buffer = none)
    (text : String) (options : TransactionOptions) (entry : Option String) :
    Ends (compileAndRun text options entry) session fun _ after => after.buffer = none :=
  (compileAndRun_keeps sound text options entry).mono fun _ _ ended =>
    ended.1.buffer.trans unbuffered

theorem runWrapped_unbuffered (sound : session.Sound) (unbuffered : session.buffer = none)
    (mode : InputMode) (text : String) :
    Ends (runWrapped mode text) session fun _ after => after.buffer = none := by
  have echoes : ∀ {final : Session} (value : Option Value), final.buffer = none →
      Ends (echoValue mode value) final fun _ after => after.buffer = none := by
    intro final value clean
    unfold echoValue
    split
    · exact ends_modify clean
    · exact ends_pure clean
  have wraps : Ends (wrapInput mode text) session fun _ after =>
      after.Sound ∧ after.buffer = none := by
    unfold wrapInput
    apply ends_get_bind
    apply ends_set_bind
    exact ends_pure ⟨sound.of_same rfl rfl rfl, unbuffered⟩
  unfold runWrapped
  apply ends_bind
  refine wraps.mono ?_
  rintro wrapped between ⟨soundBetween, unbufferedBetween⟩
  apply ends_bind
  refine (compileAndRun_unbuffered soundBetween unbufferedBetween _ _ _).mono ?_
  intro compiled ran clean
  dsimp only
  split
  · apply ends_bind
    refine abandonOpen_keeps.mono fun _ abandoned kept => ?_
    apply ends_bind
    apply ends_pure
    apply ends_bind
    exact (echoes _ (kept.1.buffer.trans clean)).mono fun _ _ final => ends_pure final
  · apply ends_bind
    apply ends_pure
    apply ends_bind
    exact (echoes _ clean).mono fun _ _ final => ends_pure final

/-- Input is buffered only while no transaction waits. -/
theorem submitWrapped_apart (sound : session.Sound) (unbuffered : session.buffer = none)
    (unopened : session.compiler.opened = none) (mode : InputMode) (text : String) :
    Ends (submitWrapped mode text) session fun _ after => after.Apart := by
  unfold submitWrapped
  apply ends_get_bind
  split
  · exact (compileAndRun_unbuffered sound unbuffered _ _ _).mono fun _ _ => apart_of_unbuffered
  · split
    · exact (runWrapped_unbuffered sound unbuffered mode text).mono fun _ _ => apart_of_unbuffered
    · apply ends_set_bind
      exact ends_pure fun _ => unopened

theorem submit_apart (sound : session.Sound) (apart : session.Apart) (mode : InputMode)
    (text : String) : Ends (submit mode text) session fun _ after => after.Apart := by
  unfold submit
  apply ends_get_bind
  split
  · next buffered waits =>
    apply ends_set_bind
    have taken : { session with buffer := none }.Sound := sound.of_same rfl rfl rfl
    exact submitWrapped_apart taken rfl (apart (by rw [waits]; rfl)) _ _
  · next unbuffered =>
    have compiles : ∀ (text : String) (options : TransactionOptions),
        Ends (compileAndRun text options none) session fun _ after => after.Apart :=
      fun text options => (compileAndRun_unbuffered sound unbuffered text options none).mono
        fun _ _ => apart_of_unbuffered
    split
    · exact compiles _ _
    · next unopened =>
      have none : session.compiler.opened = none := by simpa using unopened
      cases mode with
      | declare => exact compiles _ _
      | headerOnly => exact compiles _ _
      | evaluate => exact submitWrapped_apart sound unbuffered none _ _
      | echo => exact submitWrapped_apart sound unbuffered none _ _
      | execute => exact submitWrapped_apart sound unbuffered none _ _

theorem perform_apart (sound : session.Sound) (apart : session.Apart) (operation : Operation) :
    Ends (perform operation) session fun _ after => after.Apart := by
  cases handles : operation.handlesInput with
  | true =>
    cases operation with
    | submit mode text => exact ends_map (submit_apart sound apart mode text)
    | process text =>
      apply ends_map
      unfold process
      apply ends_get_bind
      split
      · exact submit_apart sound apart _ _
      · split
        · exact submit_apart sound apart _ _
        · exact submit_apart sound apart _ _
    | cancelContinuation =>
      apply ends_map
      unfold cancelContinuation
      apply ends_bind
      apply ends_modify
      exact abandonOpen_keeps.mono fun _ _ kept => apart_of_unbuffered kept.1.buffer
    | _ => cases handles
  | false =>
    by_cases installs : ∃ provider, operation = .setProvider provider
    · obtain ⟨provider, rfl⟩ := installs
      exact ends_map (ends_modify apart)
    · exact (perform_leaves sound handles fun provider same => installs ⟨provider, same⟩).mono
        fun _ _ => Leaves.apart apart

/-- Buffered input and a waiting transaction exclude each other at any time. -/
theorem performAll_apart (operations : List Operation) (sound : session.Sound)
    (apart : session.Apart) :
    Ends (performAll operations) session fun _ after => after.Apart := by
  induction operations generalizing session with
  | nil => exact ends_pure apart
  | cons operation rest inductionHypothesis =>
    unfold performAll
    apply ends_bind
    intro answer between ended
    have next := inductionHypothesis (perform_ends sound operation answer between ended)
      (perform_apart sound apart operation answer between ended)
    apply ends_bind
    exact next.mono fun _ _ final => ends_pure final

/-! ## What placed input declares -/

/-- If placed input compiles, its transaction declares the function that the input is placed in,
and nothing else, exactly if the input closes no brace that it has not opened. The code is then
that of the function alone. Input that is of its own accord placed as an expression closes none. -/
theorem placed_input_declares_its_function {config : Config} {source : LibrarySource}
    {files : Files.FileTree} {operations : List Operation} {answers : List Answer}
    (performed : performAll operations (new config source files) = .ok (answers, session))
    (places : session.buffer = none → session.compiler.opened = none)
    {text : String} {kind : Input.WrapKind} {options : TransactionOptions}
    {wrapped : Input.WrappedInput}
    (placed : (Input.wrap session.names text.toList kind
      session.compiler.checker.table.liveNames).1 = wrapped)
    {report : CompileReport} {compiler : Compiler} {log : TransactionLog}
    (compiled : session.compiler.compile session.log
      { text := wrapped.text, options, entry := some wrapped.entry } = .ok (report, compiler, log))
    (succeeded : report.verdict = .success) :
    ∃ transaction tokens, log.get? report.transaction = some transaction ∧
      tokenize text = .ok tokens ∧
      (transaction.declarations.map compiler.checker.declarationName? = [some wrapped.entry] ↔
        Syntax.Enclosed tokens) ∧
      (Syntax.Enclosed tokens → ∃ function : Code.Function, function.name = wrapped.entry ∧
        (compiler.checker.collectUnit report.transaction).1 =
          ⟨some report.transaction, [function], [], []⟩) ∧
      (kind = .value → Input.valueKind text.toList = .value → Syntax.Enclosed tokens) := by
  have began := sound_new config source files
  have sound := performAll_ends operations began answers session performed
  have apart :=
    performAll_apart operations began (apart_of_unbuffered rfl) answers session performed
  have unopened : session.compiler.opened = none := by
    cases buffered : session.buffer with
    | none => exact places buffered
    | some waiting => exact apart (by rw [buffered]; rfl)
  obtain ⟨items, transaction, read, errorless, found, listed, records, collected⟩ :=
    Compiler.compile_success sound.compiler.toWellFormed unopened compiled succeeded
  subst placed
  obtain ⟨tokens, tokenized, alone, enclosed, expression⟩ := Input.parseProgram_wrap read
  refine ⟨transaction, tokens, found, tokenized, ⟨fun names => enclosed ?_, fun stays => ?_⟩,
    fun stays => ?_, expression⟩
  · have counted := Analysis.length_declarations items errorless
    have one := congrArg List.length names
    rw [List.length_map, listed] at one
    exact (Nat.zero_add _).symm.trans (counted.symm.trans one)
  · obtain ⟨body, span, rfl⟩ := alone stays
    obtain ⟨record, function, added, number, named, -, declared, -⟩ :=
      Analysis.analyze_definition errorless
    rw [listed, declared]
    have newest : compiler.checker.table.get? record.id =
        some (DeclarationTable.shown report.transaction record) := by
      rw [DeclarationTable.get?, records, added, number]
      simp
    rw [List.map_singleton, Checker.declarationName?, newest, Option.map_some,
      DeclarationTable.name_shown, named]
  · obtain ⟨body, span, rfl⟩ := alone stays
    obtain ⟨record, function, -, -, -, named, -, unit⟩ := Analysis.analyze_definition errorless
    exact ⟨function, named, collected.trans unit⟩

/-- Statements that close the brace of their function declare a variable and a function. -/
theorem closing_a_brace_declares_more :
    let session := new .standard .sharedObjects []
    let text := "\x7d int x = 1; void g() \x7b"
    ∃ wrapped report compiler log transaction tokens,
      performAll [] session = .ok ([], session) ∧
      (session.buffer = none → session.compiler.opened = none) ∧
      (Input.wrap session.names text.toList .statements
        session.compiler.checker.table.liveNames).1 = wrapped ∧
      session.compiler.compile session.log
        { text := wrapped.text, options := .execution, entry := some wrapped.entry } =
          .ok (report, compiler, log) ∧
      report.verdict = .success ∧
      Input.isComplete text.toList = true ∧
      log.get? report.transaction = some transaction ∧
      transaction.declarations.map compiler.checker.declarationName? =
        [some wrapped.entry, some "x", some "g"] ∧
      tokenize text = .ok tokens ∧ ¬Syntax.Enclosed tokens := by
  intro session text
  let wrapped := (Input.wrap session.names text.toList .statements
    session.compiler.checker.table.liveNames).1
  have facts :
      ((session.compiler.compile session.log
        { text := wrapped.text, options := .execution, entry := some wrapped.entry }).toOption.bind
          fun result => (result.2.2.get? result.1.transaction).map fun transaction =>
            decide (result.1.verdict = .success ∧
              transaction.declarations.map result.2.1.checker.declarationName? =
                [some wrapped.entry, some "x", some "g"])) = some true := by
    decide +kernel
  obtain ⟨⟨report, compiler, log⟩, compiled, facts⟩ := Option.bind_eq_some_iff.mp facts
  obtain ⟨transaction, found, facts⟩ := Option.map_eq_some_iff.mp facts
  obtain ⟨succeeded, declared⟩ := of_decide_eq_true facts
  have compiled := ok_of_toOption compiled
  have performed : performAll [] session = .ok ([], session) := rfl
  have complete : Input.isComplete text.toList = true := by decide +kernel
  obtain ⟨other, tokens, same, tokenized, declares, -⟩ :=
    placed_input_declares_its_function performed (fun _ => rfl) rfl compiled succeeded
  obtain rfl := Option.some.inj (found.symm.trans same)
  refine ⟨wrapped, report, compiler, log, transaction, tokens, performed, fun _ => rfl, rfl,
    compiled, succeeded, complete, found, declared, tokenized, fun stays => ?_⟩
  cases declared.symm.trans (declares.mpr stays)

end Session

end IncrementalC
