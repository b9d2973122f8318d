import IncrementalC.Proofs.Compilation.Reading

/-!
Contract: sequences of requests to a compiler.

Owns: what a caller can ask of a compiler and the answers, and that a sequence of
requests is answered as a whole and keeps the compiler well formed.

Does not own: what single requests do.
-/

namespace IncrementalC.Compiler

/-- What a caller can ask of a compiler. -/
inductive Operation where
  | compile (request : CompileRequest)
  | abandonOpen
  | unload (id : TransactionId)
  /-- Takes the lowered code of a transaction. -/
  | collect (id : TransactionId)
deriving DecidableEq, Repr

/-- What a caller is told. -/
inductive Answer where
  | compiled (report : CompileReport)
  | abandoned (id : Option TransactionId)
  | unloaded (transaction : Option Transaction)
  | collected (code : TransactionId × CodeUnit)
deriving Repr

/-- Does what was asked. -/
def perform (compiler : Compiler) (log : TransactionLog) :
    Operation → Except Misuse (Answer × Compiler × TransactionLog)
  | .compile request => do
    let (report, after, logged) ← compiler.compile log request
    return (.compiled report, after, logged)
  | .abandonOpen => .ok (.abandoned compiler.abandonOpen.1, compiler.abandonOpen.2, log)
  | .unload id =>
    let (removed, after, logged) := compiler.unload log id
    .ok (.unloaded removed, after, logged)
  | .collect id =>
    let (unit, checker) := compiler.checker.collectUnit id
    .ok (.collected (id, unit), { compiler with checker }, log)

/-- Does one thing after the other. -/
def performAll (compiler : Compiler) (log : TransactionLog) :
    List Operation → Except Misuse (List Answer × Compiler × TransactionLog)
  | [] => .ok ([], compiler, log)
  | operation :: rest => do
    let (answer, after, logged) ← compiler.perform log operation
    let (answers, final, last) ← after.performAll logged rest
    return (answer :: answers, final, last)

theorem performAll_cons {compiler after : Compiler} {log logged : TransactionLog}
    {operation : Operation} {answer : Answer}
    (performed : compiler.perform log operation = .ok (answer, after, logged))
    (rest : List Operation) :
    compiler.performAll log (operation :: rest) =
      (after.performAll logged rest).map fun result => (answer :: result.1, result.2) := by
  simp only [performAll, performed, bind, Except.bind]
  cases after.performAll logged rest <;> rfl

theorem perform_compile {compiler after : Compiler} {log logged : TransactionLog}
    {request : CompileRequest} {report : CompileReport}
    (answered : compiler.compile log request = .ok (report, after, logged)) :
    compiler.perform log (.compile request) = .ok (.compiled report, after, logged) := by
  simp [perform, answered, bind, Except.bind, pure, Except.pure]

theorem perform_ok {compiler : Compiler} {log : TransactionLog}
    (wellFormed : compiler.WellFormed log) (operation : Operation) :
    ∃ answer after logged, compiler.perform log operation = .ok (answer, after, logged) ∧
      after.WellFormed logged := by
  cases operation with
  | compile request =>
    obtain ⟨report, after, logged, compiled, kept⟩ := compile_ok wellFormed request
    exact ⟨.compiled report, after, logged, perform_compile compiled, kept⟩
  | abandonOpen => exact ⟨_, _, _, rfl, wellFormed_abandonOpen wellFormed⟩
  | unload id => exact ⟨_, _, _, rfl, wellFormed_unload wellFormed id⟩
  | collect id => exact ⟨_, _, _, rfl, wellFormed_collectUnit wellFormed id⟩

/-- A sequence of requests is answered to its end if every single one is, and keeps what
makes sure of that. -/
theorem performAll_keeps {kept : Compiler → TransactionLog → Prop}
    (step : ∀ {compiler log}, kept compiler log → ∀ operation, ∃ answer after logged,
      compiler.perform log operation = .ok (answer, after, logged) ∧ kept after logged)
    {compiler : Compiler} {log : TransactionLog} (holds : kept compiler log)
    (operations : List Operation) :
    ∃ answers after logged, compiler.performAll log operations = .ok (answers, after, logged) ∧
      kept after logged := by
  induction operations generalizing compiler log with
  | nil => exact ⟨[], compiler, log, rfl, holds⟩
  | cons operation rest inductionHypothesis =>
    obtain ⟨answer, between, betweenLog, performed, holdsBetween⟩ := step holds operation
    obtain ⟨answers, after, logged, others, final⟩ := inductionHypothesis holdsBetween
    exact ⟨answer :: answers, after, logged, by rw [performAll_cons performed, others]; rfl, final⟩

/-- A sequence of requests to a well-formed compiler is answered to its end. -/
theorem performAll_ok {compiler : Compiler} {log : TransactionLog}
    (wellFormed : compiler.WellFormed log) (operations : List Operation) :
    ∃ answers after logged, compiler.performAll log operations = .ok (answers, after, logged) ∧
      after.WellFormed logged :=
  performAll_keeps perform_ok wellFormed operations

/-- Whatever was asked of a new compiler, it is well formed. -/
theorem wellFormed_of_performAll {operations : List Operation} {answers : List Answer}
    {compiler : Compiler} {log : TransactionLog}
    (reached : Compiler.new.performAll .empty operations = .ok (answers, compiler, log)) :
    compiler.WellFormed log := by
  obtain ⟨_, after, logged, performed, kept⟩ := performAll_ok wellFormed_new operations
  rw [reached] at performed
  cases performed
  exact kept

end IncrementalC.Compiler
