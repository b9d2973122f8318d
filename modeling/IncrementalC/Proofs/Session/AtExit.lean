import IncrementalC.Proofs.Engine.AtExit
import IncrementalC.Proofs.Session.Operation

/-!
Contract: what is pending after an owner is gone.

What is due is taken out of the registry before it is run. Actions that are registered
in the course of it stay behind, and nobody else's action is touched.

Owns: the pending actions after a transaction is unloaded, and after everything is
destructed.

Does not own: which functions register actions.
-/

namespace IncrementalC.Session

open AtExitHistory

/-- A transaction is unloaded, by its number or as the last one. -/
def Unloads (session : Session) (id : TransactionId) (after : Session) : Prop :=
  perform (.unload id) session = .ok (.unloading .unloaded, after) ∨
    session.log.last?.map Transaction.id = some id ∧
      perform .unloadLast session = .ok (.unloading .unloaded, after)

/-- What was due for a transaction had its turn. -/
def Retires (before : Session) (id : TransactionId) (after : Session) : Prop :=
  ∃ meanwhile, Engine.Retires (some (.transaction id)) before.engine meanwhile after.engine

section

variable {session after : Session}

theorem removeTransaction_retires (id : TransactionId) :
    Ends (removeTransaction id) session fun _ after => session.Retires id after := by
  unfold removeTransaction
  apply ends_bind
  apply ends_withEngine
  intro count engine ran
  obtain ⟨meanwhile, retires⟩ := Engine.unload_retires ran
  apply ends_bind
  apply ends_modify
  apply ends_pure
  refine ⟨meanwhile, ?_⟩
  dsimp only
  split
  · exact retires
  · unfold notify
    split
    · exact retires
    · split
      · exact retires.quietly rfl rfl (.refl _)
      · exact retires

theorem unloadTransaction_retires (id : TransactionId) :
    Ends (unloadTransaction id) session fun unloading after =>
      unloading = .unloaded → session.Retires id after := by
  unfold unloadTransaction
  apply ends_get_bind
  split
  · apply ends_bind
    apply ends_withEngine
    intro dependents engine asked
    obtain rfl : (session.engine.dependents id).2 = engine :=
      congrArg Prod.snd (Except.ok.inj asked)
    obtain ⟨registry, runs, code⟩ := session.engine.dependents_quiet id
    split
    · exact ends_pure nofun
    · refine (removeTransaction_retires id).mono ?_
      rintro _ after ⟨meanwhile, retires⟩ _
      exact ⟨meanwhile, retires.preceded registry runs code⟩
  · exact ends_pure nofun

theorem unloadLast_retires {id : TransactionId}
    (last : session.log.last?.map Transaction.id = some id) :
    Ends unloadLast session fun unloading after =>
      unloading = .unloaded → session.Retires id after := by
  obtain ⟨transaction, newest, rfl⟩ := Option.map_eq_some_iff.mp last
  unfold unloadLast
  apply ends_get_bind
  rw [newest]
  exact unloadTransaction_retires transaction.id

theorem Unloads.retires {id : TransactionId} (unloads : session.Unloads id after) :
    session.Retires id after := by
  have retiring : ∀ {step : Step Unloading},
      Ends step session (fun unloading after => unloading = .unloaded → session.Retires id after) →
      (Answer.unloading <$> step) session = .ok (.unloading .unloaded, after) →
      session.Retires id after := by
    intro step ends unloaded
    have answering : Ends (Answer.unloading <$> step) session fun answer after =>
        answer = .unloading .unloaded → session.Retires id after :=
      ends_map (ends.mono fun _ _ retires same => retires (Answer.unloading.inj same))
    exact answering _ _ unloaded rfl
  rcases unloads with unloaded | ⟨last, unloaded⟩
  · exact retiring (unloadTransaction_retires id) unloaded
  · exact retiring (unloadLast_retires last) unloaded

end

/-- What callbacks register while they are run for an owner that goes away is what is left
of it: after a transaction is unloaded, its pending actions are the ones that were
registered in the course of it, and all others are kept; after everything is destructed,
the registry holds what was registered meanwhile. -/
theorem callbacks_leave_what_they_register (session : Session) :
    (∀ id after, session.Unloads id after →
      ∃ meanwhile, Engine.Retires (some (.transaction id)) session.engine meanwhile after.engine ∧
        after.engine.host.atExit.takeOwned (.transaction id) =
          (made meanwhile, (session.engine.host.atExit.takeOwned (.transaction id)).2)) ∧
      ∀ count after, perform .runStaticDestructors session = .ok (.count count, after) →
        ∃ meanwhile, Engine.Retires none session.engine meanwhile after.engine ∧
          after.engine.host.atExit = made meanwhile := by
  constructor
  · intro id after unloads
    obtain ⟨meanwhile, retires⟩ := unloads.retires
    exact ⟨meanwhile, retires, retires.takeOwned⟩
  · intro count after destructed
    have retiring : Ends (perform .runStaticDestructors) session fun _ after =>
        ∃ meanwhile, Engine.Retires none session.engine meanwhile after.engine := by
      apply ends_map
      apply ends_withEngine
      intro count engine ran
      exact Engine.runStaticDestructors_retires ran
    obtain ⟨meanwhile, retires⟩ := retiring _ _ destructed
    refine ⟨meanwhile, retires, ?_⟩
    rw [retires.pending]
    exact List.append_nil _

/-- A function registers itself with one less. Its action is run when the transaction that
registered it is unloaded, or when everything is destructed, and leaves one behind. -/
theorem an_action_leaves_another :
    let operations := [.submit .declare
        "int f(int n) \x7b if (n > 0) \x7b atexit(f, n - 1); \x7d return 0; \x7d",
      .submit .evaluate "atexit(f, 1)"]
    ∃ answers session unloaded destructed,
      performAll operations (new .standard .sharedObjects []) = .ok (answers, session) ∧
      session.Unloads ⟨1⟩ unloaded ∧
      unloaded.engine.host.atExit.pendingFor (.transaction ⟨1⟩) = 1 ∧
      (∃ meanwhile,
        Engine.Retires (some (.transaction ⟨1⟩)) session.engine meanwhile unloaded.engine ∧
        unloaded.engine.host.atExit.takeOwned (.transaction ⟨1⟩) =
          (made meanwhile, (session.engine.host.atExit.takeOwned (.transaction ⟨1⟩)).2)) ∧
      perform .runStaticDestructors session = .ok (.count 1, destructed) ∧
      destructed.engine.host.atExit.length = 1 ∧
      ∃ meanwhile, Engine.Retires none session.engine meanwhile destructed.engine ∧
        destructed.engine.host.atExit = made meanwhile := by
  intro operations
  have facts :
      ((performAll operations (new .standard .sharedObjects [])).toOption.bind fun result =>
        (perform (.unload ⟨1⟩) result.2).toOption.bind fun unloading =>
          (perform .runStaticDestructors result.2).toOption.map fun destructing =>
            decide (unloading.1 = .unloading .unloaded ∧
              unloading.2.engine.host.atExit.pendingFor (.transaction ⟨1⟩) = 1 ∧
              destructing.1 = .count 1 ∧ destructing.2.engine.host.atExit.length = 1)) =
        some true := by decide +kernel
  obtain ⟨⟨answers, session⟩, performed, facts⟩ := Option.bind_eq_some_iff.mp facts
  obtain ⟨⟨answer, unloaded⟩, unloads, facts⟩ := Option.bind_eq_some_iff.mp facts
  obtain ⟨⟨counted, destructed⟩, destructs, facts⟩ := Option.map_eq_some_iff.mp facts
  obtain ⟨rfl, pending, rfl, left⟩ := of_decide_eq_true facts
  have unloads := ok_of_toOption unloads
  have destructs := ok_of_toOption destructs
  obtain ⟨unloading, destructing⟩ := callbacks_leave_what_they_register session
  exact ⟨answers, session, unloaded, destructed, ok_of_toOption performed, .inl unloads, pending,
    unloading _ _ (.inl unloads), destructs, left, destructing _ _ destructs⟩

end IncrementalC.Session
