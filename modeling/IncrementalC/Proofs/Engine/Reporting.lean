import IncrementalC.Proofs.Engine.Blocking

/-!
Contract: what a report of missing names covers while the target is blocked.

What blocked transactions lack is collected over the whole pass. So the report names what the
target waits for, and beside it what all others wait for that are left blocked, before and after
the target and whether or not the target has to do with them.

Owns: the names that a blocked transaction waits for, the names in the report of an execution
whose target is blocked, and that executions only add to the trace.

Does not own: who is asked for the names.
-/

namespace IncrementalC.Engine

variable {engine between after : Engine} {target : TransactionId} {log : TransactionLog}
  {entry : Option String} {execution : Execution} {own : Waiting}

/-! ## What blocked transactions wait for -/

/-- The transaction waits for the name: its initializers lack it, or an earlier one waits for it
that is blocked and defines a name that its module refers to. -/
inductive Needs (engine : Engine) : Waiting → String → Prop where
  | own {next : Waiting} {name : String}
      (lacks : engine.Lacks (engine.initializerRoots next) name) : Needs engine next name
  | behind {next earlier : Waiting} {name symbol : String} (waits : earlier ∈ engine.waiting)
      (smaller : earlier.id.number < next.id.number)
      (used : symbol ∈ engine.machine.referencesOf next.module)
      (defined : symbol ∈ engine.machine.symbolsOf earlier.module)
      (needs : Needs engine earlier name) : Needs engine next name

/-- What is waited for is lacked by initializers of a blocked transaction. -/
theorem Needs.exists_lacking {next : Waiting} {name : String} (needs : engine.Needs next name)
    (waits : next ∈ engine.waiting) :
    ∃ holder ∈ engine.waiting, engine.Lacks (engine.initializerRoots holder) name := by
  induction needs with
  | own lacks => exact ⟨_, waits, lacks⟩
  | behind earlierWaits _ _ _ _ inductionHypothesis => exact inductionHypothesis earlierWaits

/-! ## Reports -/

/-- If the target is still blocked, it is initializing that reports the missing names. -/
theorem emitAndRun_halted (ran : engine.emitAndRun log target entry = .ok (execution, after))
    (unresolved : execution.result = .unresolvedSymbols) (waits : own ∈ after.waiting)
    (isTarget : own.id = target) :
    engine.emitPending.runStaticInitializers target = .ok (some execution, after) := by
  cases emitAndRun_course ran with
  | unknown absent => cases unresolved
  | untracked state => cases unresolved
  | excluded state => cases unresolved
  | refused refused => exact absurd unresolved (result_of_refusal? refused)
  | halted accepted initialized => exact initialized
  | initialized accepted initialized => cases unresolved
  | entered logged accepted initialized entering =>
    have reports := ((initializeAll_course initialized).reports (accounts_begin _ target)).2
    obtain ⟨-, lacks⟩ := runEntry_reports (reports.1 rfl) entering unresolved
    exact absurd isTarget (lacks.initialized own waits)

/-- The names that are reported are all those that initializers of blocked transactions lack. -/
theorem Orderly.mem_unresolved_iff (orderly : engine.Orderly)
    (ran : engine.runStaticInitializers target = .ok (some execution, after))
    (unresolved : execution.result = .unresolvedSymbols) (name : String) :
    name ∈ execution.unresolved ↔
      ∃ holder ∈ after.waiting, after.Lacks (after.initializerRoots holder) name := by
  have fine : ∀ ended ∈ some execution, ended.result ≠ .faulted := by
    rintro _ ⟨⟩ faulted
    rw [unresolved] at faulted
    cases faulted
  obtain ⟨left, final, passes, ended⟩ := (initializeAll_course ran).passes
    (passes_begin orderly.ascending target) (ascending_waiting orderly.ascending) fine
  have leftWaits : after.waiting = left := by rw [passes.waiting, List.append_nil]
  have report : execution = .lacking final.missing := by
    cases included : final.includesTarget with
    | true =>
      rw [included] at ended
      exact Option.some.inj ended
    | false =>
      rw [included] at ended
      cases ended
  rw [report, leftWaits]
  show name ∈ final.missing ↔ _
  rw [passes.missing]
  simp only [passes.advances.lacks_iff, passes.advances.initializerRoots]

/-- The report of an execution whose target is blocked lists in strictly ascending order what the
target waits for and what the others wait for that are blocked. -/
theorem Orderly.reports_all (orderly : engine.emitPending.Orderly)
    (ran : engine.emitAndRun log target entry = .ok (execution, after))
    (unresolved : execution.result = .unresolvedSymbols) (waits : own ∈ after.waiting)
    (isTarget : own.id = target) :
    execution.unresolved.Pairwise (· < ·) ∧
      ∀ name, name ∈ execution.unresolved ↔
        after.Needs own name ∨ ∃ other ∈ after.waiting, other ≠ own ∧ after.Needs other name := by
  have halted := emitAndRun_halted ran unresolved waits isTarget
  refine ⟨(emitAndRun_trulyMissing ran unresolved).ascending, fun name => ?_⟩
  rw [orderly.mem_unresolved_iff halted unresolved]
  constructor
  · rintro ⟨holder, holderWaits, lacks⟩
    by_cases same : holder = own
    · exact .inl (same ▸ .own lacks)
    · exact .inr ⟨holder, holderWaits, same, .own lacks⟩
  · rintro (needs | ⟨other, otherWaits, -, needs⟩)
    · exact needs.exists_lacking waits
    · exact needs.exists_lacking otherWaits

/-! ## Traces -/

theorem Continues.trace (continues : engine.Continues after) :
    engine.host.trace <:+ after.host.trace := by
  obtain ⟨events, grown⟩ := continues.host.trace
  exact ⟨events, grown.symm⟩

theorem missingNames_trace {roots : List Address} {missing : NameSet}
    (search : engine.missingNames roots = (missing, after)) :
    engine.host.trace <:+ after.host.trace := by
  have searching := (engine.missingNames_continues roots).1.trace
  rwa [search] at searching

theorem runInitializers_trace {id : TransactionId} {entries : List Machine.InitializerEntry}
    {fault : Option Fault}
    (ran : (engine.mark id).runInitializers id entries = .ok (fault, after)) :
    engine.host.trace <:+ after.host.trace :=
  (runInitializers_course ran).continues.trace

theorem InitializesAll.trace {blockage : Blockage} {waiting : List Waiting}
    {outcome : Option Execution}
    (course : InitializesAll target engine blockage waiting outcome after) :
    engine.host.trace <:+ after.host.trace := by
  induction course with
  | nil engine blockage => exact List.suffix_rfl
  | blocked search _ _ inductionHypothesis =>
    exact (missingNames_trace search).trans inductionHypothesis
  | failed search _ ran _ => exact (missingNames_trace search).trans (runInitializers_trace ran)
  | taken search _ ran _ _ inductionHypothesis =>
    exact ((missingNames_trace search).trans (runInitializers_trace ran)).trans inductionHypothesis

/-- An execution takes nothing out of the trace. -/
theorem emitAndRun_trace (ran : engine.emitAndRun log target entry = .ok (execution, after)) :
    engine.host.trace <:+ after.host.trace := by
  have initializing : ∀ {outcome : Option Execution} {between : Engine},
      engine.emitPending.runStaticInitializers target = .ok (outcome, between) →
      engine.host.trace <:+ between.host.trace :=
    fun ran => (initializeAll_course ran).trace
  cases emitAndRun_course ran with
  | unknown absent => exact List.suffix_rfl
  | untracked state => exact List.suffix_rfl
  | excluded state => exact List.suffix_rfl
  | refused refused => exact List.suffix_rfl
  | halted accepted initialized => exact initializing initialized
  | initialized accepted initialized => exact initializing initialized
  | entered logged accepted initialized entering =>
    refine (initializing initialized).trans ?_
    cases runEntry_course entering with
    | unknown absent => exact List.suffix_rfl
    | lacking found search lacks => exact missingNames_trace search
    | ran found search run => exact (missingNames_trace search).trans (runFor_eq run).1.trace

end IncrementalC.Engine
