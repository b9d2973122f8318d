import IncrementalC.Proofs.Engine.Reporting
import IncrementalC.Proofs.Session.Running
import IncrementalC.Proofs.Session.Supplying

/-!
Contract: the provider is asked for every name that a blocked execution reports.

The names of a report are handed on as they are. So a definition is also asked for when only
some other blocked transaction waits for it.

Owns: that compiling and running takes nothing out of the trace of a session, and the names that
are asked for when an execution is blocked.

Does not own: what is done with the definitions.
-/

namespace IncrementalC.Session

variable {session : Session} {id : TransactionId} {entry : Option String} {execution : Execution}

/-! ## Requests in the trace -/

/-- The trace goes on from `trace`, whose last event comes first. -/
def GoesOnFrom (trace : Trace) (session : Session) : Prop := trace <:+ session.engine.host.trace

theorem GoesOnFrom.notify {trace : Trace} (goesOn : session.GoesOnFrom trace)
    (notification : Notification) : (session.notify notification).GoesOnFrom trace := by
  unfold Session.notify
  split
  · exact goesOn
  · split
    · exact List.IsSuffix.trans goesOn (List.suffix_cons _ _)
    · exact goesOn

/-- Compiling and running takes nothing out of the trace. -/
theorem keptByRuns_goesOnFrom (trace : Trace) : KeptByRuns (GoesOnFrom trace) where
  aside _ _ _ goesOn := goesOn
  executed goesOn ran := List.IsSuffix.trans goesOn (Engine.emitAndRun_trace ran)
  asked _ goesOn := List.IsSuffix.trans goesOn (List.suffix_cons _ _)
  rejected goesOn _ _ := goesOn
  committed := by
    intro session request report compiler log goesOn _ _
    apply ends_modify
    split
    · exact goesOn
    · next transaction logged =>
      rw [← TransactionLog.id_of_get? logged]
      have handed : (handOver { session with compiler, log } transaction).GoesOnFrom trace := goesOn
      exact handed.notify _
  abandoned goesOn := goesOn

theorem trace_requests (names : List String) (engine : Engine) :
    (names.foldl (fun engine name => engine.record (.definitionRequested name))
      engine).host.trace =
      (names.map Event.definitionRequested).reverse ++ engine.host.trace := by
  induction names generalizing engine with
  | nil => rfl
  | cons name rest inductionHypothesis =>
    rw [List.foldl_cons, inductionHypothesis, List.map_cons, List.reverse_cons, List.append_assoc]
    rfl

/-- A run that is blocked asks for all names that are reported first, one after the other. -/
theorem runWithDefinitions_requests {provider : DefinitionProvider} {engine : Engine}
    (provided : session.provider = some provider)
    (ran : session.engine.emitAndRun session.log id entry = .ok (execution, engine))
    (unresolved : execution.result = .unresolvedSymbols) :
    Ends (runWithDefinitions id entry) session fun _ => GoesOnFrom
      ((execution.unresolved.map Event.definitionRequested).reverse ++ engine.host.trace) := by
  have kept := keptByRuns_goesOnFrom
    ((execution.unresolved.map Event.definitionRequested).reverse ++ engine.host.trace)
  unfold runWithDefinitions
  apply ends_bind
  refine (emitAndRun_engine session).mono ?_
  rintro first between ⟨other, ranFirst, rfl⟩
  obtain ⟨rfl, rfl⟩ := Prod.mk.inj (Except.ok.inj (ran.symm.trans ranFirst))
  rw [if_pos unresolved]
  apply ends_get_bind
  simp only [provided]
  apply ends_bind
  unfold requestDefinitions
  apply ends_get_bind
  apply ends_bind
  apply ends_modify
  apply ends_pure
  apply ends_bind
  refine (kept.declareDefinitions_ends ?asked _).mono ?_
  case asked => exact ⟨[], (trace_requests execution.unresolved engine).symm⟩
  intro declared final goesOn
  split
  · exact ends_pure goesOn
  · exact kept.emitAndRun_ends goesOn id entry

/-! ## Reports -/

variable {engine after : Engine} {target : TransactionId} {log : TransactionLog}
  {own : Engine.Waiting}

/-- If an execution reports missing names while its target is blocked, the report lists in strictly
ascending order what the target waits for and what all others wait for that are blocked. A
session with a provider asks it for each of these names, in this order. -/
theorem reports_cover_all_that_is_blocked {limits : Limits} {source : LibrarySource}
    (reached : Engine.Reached limits source engine)
    (ran : engine.emitAndRun log target entry = .ok (execution, after))
    (unresolved : execution.result = .unresolvedSymbols) (waits : own ∈ after.waiting)
    (isTarget : own.id = target) :
    execution.unresolved.Pairwise (· < ·) ∧
      (∀ name, name ∈ execution.unresolved ↔
        after.Needs own name ∨ ∃ other ∈ after.waiting, other ≠ own ∧ after.Needs other name) ∧
      ∀ (session : Session) (provider : DefinitionProvider),
        Ends (runWithDefinitions target entry)
          { session with engine, log, provider := some provider } fun _ => GoesOnFrom
            ((execution.unresolved.map Event.definitionRequested).reverse ++ after.host.trace) := by
  obtain ⟨ascending, exact⟩ := reached.orderly.emitPending.reports_all ran unresolved waits isTarget
  refine ⟨ascending, exact, fun session provider => ?_⟩
  have provided : { session with engine, log, provider := some provider }.provider =
      some provider := rfl
  exact runWithDefinitions_requests provided ran unresolved

/-- The code of `int r = g();` and of `int s = h();`, where nothing defines `g` and `h`. -/
def unrelatedVariables : List Engine.Operation :=
  [Engine.trackVariable 0 "r" (.call "g" []), Engine.trackVariable 1 "s" (.call "h" [])]

/-- The log with the transactions of this code. -/
def unrelatedLog : TransactionLog :=
  ⟨[{ Transaction.new ⟨0⟩ .declaration with state := .committed, declarations := [⟨0⟩] },
    { Transaction.new ⟨1⟩ .declaration with state := .committed, declarations := [⟨1⟩] }], 2⟩

/-- How the first of these transactions waits. -/
def firstVariable : Engine.Waiting := ⟨⟨0⟩, ⟨0⟩, ["r"], ["g"]⟩

/-- When the first of the two is executed, the report names `h` beside `g`. -/
theorem exists_unrelated_report :
    ∃ engine execution after, Engine.Reached .standard .sharedObjects engine ∧
      engine.emitAndRun unrelatedLog ⟨0⟩ none = .ok (execution, after) ∧
      execution.result = .unresolvedSymbols ∧ firstVariable ∈ after.waiting ∧
      execution.unresolved = ["g", "h"] ∧
      (after.missingNames (after.initializerRoots firstVariable)).1 = ["g"] := by
  have facts : (unrelatedVariables.foldlM Engine.perform
      (Engine.new .standard .sharedObjects)).toOption.any (fun engine =>
        (engine.emitAndRun unrelatedLog ⟨0⟩ none).toOption.any fun ended =>
          decide (ended.1.result = .unresolvedSymbols ∧ firstVariable ∈ ended.2.waiting ∧
            ended.1.unresolved = ["g", "h"] ∧
            (ended.2.missingNames (ended.2.initializerRoots firstVariable)).1 = ["g"])) = true := by
    decide +kernel
  obtain ⟨engine, performed, facts⟩ := Engine.ok_of_any facts
  obtain ⟨⟨execution, after⟩, ran, facts⟩ := Engine.ok_of_any facts
  exact ⟨engine, execution, after, Engine.reached_of_performed .start performed, ran,
    of_decide_eq_true facts⟩

theorem two_unrelated_names_are_reported :
    ∃ engine execution after, Engine.Reached .standard .sharedObjects engine ∧
      engine.emitAndRun unrelatedLog firstVariable.id none = .ok (execution, after) ∧
      execution.result = .unresolvedSymbols ∧ firstVariable ∈ after.waiting ∧
      execution.unresolved = ["g", "h"] ∧
      ∀ name, name ∈ ["g", "h"] ↔ after.Needs firstVariable name ∨
        ∃ other ∈ after.waiting, other ≠ firstVariable ∧ after.Needs other name := by
  obtain ⟨engine, execution, after, reached, ran, unresolved, waits, report, -⟩ :=
    exists_unrelated_report
  have covers := reports_cover_all_that_is_blocked reached ran unresolved waits rfl
  exact ⟨engine, execution, after, reached, ran, unresolved, waits, report, report ▸ covers.2.1⟩

/-- A report goes beyond what the target waits for: that of `int r = g();` names `h`, which only
`int s = h();` needs. -/
theorem a_report_goes_beyond_the_target :
    ¬∀ (limits : Limits) (source : LibrarySource) (engine after : Engine) (log : TransactionLog)
      (entry : Option String) (execution : Execution) (own : Engine.Waiting),
      Engine.Reached limits source engine →
      engine.emitAndRun log own.id entry = .ok (execution, after) →
      execution.result = .unresolvedSymbols → own ∈ after.waiting →
      ∀ name, name ∈ execution.unresolved ↔ after.Needs own name := by
  intro exact
  obtain ⟨engine, execution, after, reached, ran, unresolved, waits, report, missing⟩ :=
    exists_unrelated_report
  have reported : "h" ∈ execution.unresolved := by
    rw [report]
    decide
  have claimed := exact _ _ engine after unrelatedLog none execution firstVariable reached ran
    unresolved waits
  cases (claimed "h").mp reported with
  | own lacks =>
    have member := (after.mem_missingNames_iff (after.initializerRoots firstVariable) "h").mpr lacks
    rw [missing] at member
    exact absurd member (by decide)
  | behind _ smaller => exact absurd smaller (Nat.not_lt_zero _)

end IncrementalC.Session
