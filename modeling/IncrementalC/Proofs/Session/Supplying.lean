import IncrementalC.Proofs.Engine.Supplying
import IncrementalC.Proofs.Session.Breakdown

/-!
Contract: an execution that lacks names can be repeated once they are there.

Owns: supplying native functions and executing again, and that two rounds of this are enough.

Does not own: definitions that a provider has for missing names.
-/

namespace IncrementalC.Session

variable {session after : Session} {id : TransactionId} {entry : Option String}

/-- Adds native functions and, with nothing else in between, runs a function of a transaction. -/
def retry (supplied : List (String × NativeFunction)) (id : TransactionId)
    (entry : Option String) : Step Execution := do
  let _ ← performAll (supplied.map fun function => .addFunction function.1 function.2)
  emitAndRun id entry

theorem performAll_addFunction (supplied : List (String × NativeFunction)) (session : Session) :
    performAll (supplied.map fun function => .addFunction function.1 function.2) session =
      .ok (supplied.map fun _ => .done,
        { session with engine := session.engine.supply supplied }) := by
  induction supplied generalizing session with
  | nil => rfl
  | cons head tail inductionHypothesis =>
    have rest := inductionHypothesis
      { session with engine := session.engine.addFunction head.1 head.2 }
    change (performAll (tail.map fun function => .addFunction function.1 function.2)
      { session with engine := session.engine.addFunction head.1 head.2 } >>= _) = _
    rw [rest]
    rfl

theorem retry_eq (supplied : List (String × NativeFunction)) (session : Session) :
    retry supplied id entry session =
      emitAndRun id entry { session with engine := session.engine.supply supplied } := by
  change (performAll _ session >>= fun finished => emitAndRun id entry finished.2) = _
  rw [performAll_addFunction]
  rfl

theorem emitAndRun_engine (session : Session) :
    Ends (emitAndRun id entry) session fun execution after => ∃ engine,
      session.engine.emitAndRun session.log id entry = .ok (execution, engine) ∧
        after = { session with engine } := by
  unfold emitAndRun
  apply ends_get_bind
  apply ends_withEngine
  exact fun _ engine ran => ⟨engine, ran, rfl⟩

/-- What is reported as missing is missing; the execution leaves a sound session, in which all
code is generated. -/
theorem Sound.reports (sound : session.Sound) {execution : Execution}
    (ran : emitAndRun id entry session = .ok (execution, after))
    (unresolved : execution.result = .unresolvedSymbols) :
    after.Sound ∧ after.engine.Settled ∧ after.engine.TrulyMissing execution.unresolved := by
  refine ⟨(emitAndRun_course sound.course id entry execution after ran).sound, ?_⟩
  obtain ⟨engine, ranEngine, rfl⟩ := emitAndRun_engine session execution after ran
  obtain ⟨advances, -⟩ := Engine.emitAndRun_reports ranEngine unresolved
  exact ⟨advances.settled (Engine.settled_emitPending sound.engine.wellFormed),
    Engine.emitAndRun_trulyMissing ranEngine unresolved⟩

/-- In a sound session a repeated execution comes to an end, or to a loop that has none. -/
theorem Sound.retry_completes (sound : session.Sound) (supplied : List (String × NativeFunction))
    {afterwards : Execution × Session → Prop}
    (ends : { session with engine := session.engine.supply supplied }.Sound →
      Ends (emitAndRun id entry) { session with engine := session.engine.supply supplied }
        fun execution final => afterwards (execution, final)) :
    Completes (retry supplied id entry session) afterwards := by
  have soundSupplied := performAll_ends _ sound _ _ (performAll_addFunction supplied session)
  have lasts := emitAndRun_lasts soundSupplied id entry
  rw [retry_eq]
  unfold Lasts at lasts
  cases ran : emitAndRun id entry { session with engine := session.engine.supply supplied } with
  | error breakdown =>
    rw [ran] at lasts
    exact lasts
  | ok finished => exact ends soundSupplied finished.1 finished.2 ran

/-- In a sound session, two rounds of supplying what is missing are enough. -/
theorem Sound.recovers (sound : session.Sound) {execution : Execution}
    (ran : emitAndRun id entry session = .ok (execution, after))
    (unresolved : execution.result = .unresolvedSymbols)
    {supplied : List (String × NativeFunction)}
    (supplies : ∀ name ∈ execution.unresolved, name ∈ supplied.map Prod.fst) :
    Completes (retry supplied id entry after) fun second =>
      second.1.result = .unresolvedSymbols →
        entry.isSome ∧ second.2.engine.TrulyMissing second.1.unresolved ∧
          ∀ again : List (String × NativeFunction),
            (∀ name ∈ second.1.unresolved, name ∈ again.map Prod.fst) →
            Completes (retry again id entry second.2) fun third =>
              third.1.result ≠ .unresolvedSymbols := by
  obtain ⟨soundAfter, settled, -⟩ := sound.reports ran unresolved
  obtain ⟨engine, ranEngine, rfl⟩ := emitAndRun_engine session execution after ran
  obtain ⟨advances, lack⟩ := Engine.emitAndRun_reports ranEngine unresolved
  apply soundAfter.retry_completes supplied
  intro soundSupplied second later ranAgain stillUnresolved
  obtain ⟨soundLater, settledLater, missingLater⟩ := soundSupplied.reports ranAgain stillUnresolved
  obtain ⟨laterEngine, ranLater, rfl⟩ := emitAndRun_engine _ second later ranAgain
  have entryLacks : Engine.EntryLacks laterEngine id entry second.unresolved := by
    rcases lack with initializersLack | entryLacks
    · exact initializersLack.resumed advances settled supplies ranLater stillUnresolved
    · exact absurd stillUnresolved (entryLacks.resumed settled supplies ranLater)
  refine ⟨?_, missingLater, fun again suppliesAgain => ?_⟩
  · obtain ⟨name, _, isEntry, -⟩ := entryLacks.lacked
    exact Option.isSome_iff_exists.mpr ⟨name, isEntry⟩
  · apply soundLater.retry_completes again
    intro _ third final ranThird
    obtain ⟨finalEngine, ranFinal, rfl⟩ := emitAndRun_engine _ third final ranThird
    exact entryLacks.resumed settledLater suppliesAgain ranFinal

/-- Whatever was asked of an interpreter, an execution that reports missing names lists names that
are missing: some, in strictly ascending order, none of which anything provides. If functions are
added under all of them and the execution is repeated, with nothing else in between, it can report
names once more, those that its entry lacks; once functions are added under these, it does not
report missing names any more. A repeated execution that does not end is in an endless loop. -/
theorem missing_names_can_be_supplied {config : Config} {source : LibrarySource}
    {files : Files.FileTree} {operations : List Operation} {answers : List Answer}
    (performed : performAll operations (new config source files) = .ok (answers, session))
    {execution : Execution} (ran : emitAndRun id entry session = .ok (execution, after))
    (unresolved : execution.result = .unresolvedSymbols) :
    after.engine.TrulyMissing execution.unresolved ∧
      ∀ supplied : List (String × NativeFunction),
        (∀ name ∈ execution.unresolved, name ∈ supplied.map Prod.fst) →
        Completes (retry supplied id entry after) fun second =>
          second.1.result = .unresolvedSymbols →
            entry.isSome ∧ second.2.engine.TrulyMissing second.1.unresolved ∧
              ∀ again : List (String × NativeFunction),
                (∀ name ∈ second.1.unresolved, name ∈ again.map Prod.fst) →
                Completes (retry again id entry second.2) fun third =>
                  third.1.result ≠ .unresolvedSymbols := by
  have sound := performAll_ends operations (sound_new config source files) answers session performed
  obtain ⟨-, -, missing⟩ := sound.reports ran unresolved
  exact ⟨missing, fun supplied supplies => sound.recovers ran unresolved supplies⟩

/-- A native function that yields five. -/
private def five (name : String) : NativeFunction := .host ⟨⟨0, name⟩, fun _ _ => 5⟩

/-- First the initializer of `g` lacks a name, and then the entry lacks another. -/
theorem two_names_are_supplied_in_turn :
    ∃ answers session first between second later third final,
      performAll [.submit .declare
          "int late(); int more(); int g = late(); int f() \x7b return g + more(); \x7d"]
        (new .standard .sharedObjects []) = .ok (answers, session) ∧
      emitAndRun ⟨0⟩ (some "f") session = .ok (first, between) ∧
      first.unresolved = ["late"] ∧ between.engine.TrulyMissing ["late"] ∧
      retry [("late", five "late")] ⟨0⟩ (some "f") between = .ok (second, later) ∧
      second.unresolved = ["more"] ∧ later.engine.TrulyMissing ["more"] ∧
      retry [("more", five "more")] ⟨0⟩ (some "f") later = .ok (third, final) ∧
      third.value = some (.int 10) ∧ third.result ≠ .unresolvedSymbols := by
  have facts :
      ((performAll [.submit .declare
          "int late(); int more(); int g = late(); int f() \x7b return g + more(); \x7d"]
        (new .standard .sharedObjects [])).toOption.bind fun declared =>
      (emitAndRun ⟨0⟩ (some "f") declared.2).toOption.bind fun first =>
      (retry [("late", five "late")] ⟨0⟩ (some "f") first.2).toOption.bind fun second =>
      (retry [("more", five "more")] ⟨0⟩ (some "f") second.2).toOption.map fun third =>
        ((first.1.result, first.1.unresolved), (second.1.result, second.1.unresolved),
          third.1.value)) =
      some ((.unresolvedSymbols, ["late"]), (.unresolvedSymbols, ["more"]), some (.int 10)) := by
    decide +kernel
  obtain ⟨⟨answers, session⟩, performed, facts⟩ := Option.bind_eq_some_iff.mp facts
  obtain ⟨⟨first, between⟩, ran, facts⟩ := Option.bind_eq_some_iff.mp facts
  obtain ⟨⟨second, later⟩, ranAgain, facts⟩ := Option.bind_eq_some_iff.mp facts
  obtain ⟨⟨third, final⟩, ranFinally, facts⟩ := Option.map_eq_some_iff.mp facts
  replace performed := ok_of_toOption performed
  replace ran := ok_of_toOption ran
  replace ranAgain := ok_of_toOption ranAgain
  replace ranFinally := ok_of_toOption ranFinally
  simp only [Prod.mk.injEq] at facts
  obtain ⟨⟨lacks, lacked⟩, ⟨lacksAgain, lackedAgain⟩, value⟩ := facts
  obtain ⟨missing, recovers⟩ := missing_names_can_be_supplied performed ran lacks
  have secondRound := recovers [("late", five "late")] (by simp [lacked])
  rw [ranAgain] at secondRound
  obtain ⟨-, missingAgain, recoversAgain⟩ := secondRound lacksAgain
  have thirdRound := recoversAgain [("more", five "more")] (by simp [lackedAgain])
  rw [ranFinally] at thirdRound
  exact ⟨answers, session, first, between, second, later, third, final, performed, ran, lacked,
    lacked ▸ missing, ranAgain, lackedAgain, lackedAgain ▸ missingAgain, ranFinally, value,
    thirdRound⟩

end IncrementalC.Session
