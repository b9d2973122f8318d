import IncrementalC.Proofs.Engine.Steps
import IncrementalC.Proofs.Session.Sound

/-!
Contract: the steps of a session.

Whatever is asked of an interpreter, it compiles a request, hands the code of a commit to
the engine, drops what waits for more input, works with the code that the engine has, or
unloads a transaction. What holds of all runs is proved along these steps.

Owns: the steps of a session, and courses of sound sessions.

Does not own: which steps an operation takes.
-/

namespace IncrementalC.Session

open Relation (ReflTransGen)

/-- A step of a session. -/
inductive Moves (before : Session) : Session → Prop where
  /-- Neither the log, the compiler, the engine nor the policy on dependents changes. -/
  | aside {after : Session} (log : after.log = before.log)
      (compiler : after.compiler = before.compiler) (engine : after.engine = before.engine)
      (policy : after.config.unloadPolicy = before.config.unloadPolicy) : Moves before after
  | worked {engine : Engine} (works : ReflTransGen Engine.Works before.engine engine)
      (succeeds : before.engine.Succeeds engine) : Moves before { before with engine }
  | rejected {request : CompileRequest} {report : CompileReport} {compiler : Compiler}
      {log : TransactionLog}
      (compiled : before.compiler.compile before.log request = .ok (report, compiler, log))
      (refused : report.verdict ≠ .success) : Moves before { before with compiler, log }
  /-- The code of a commit goes to the engine at once. -/
  | committed {request : CompileRequest} {report : CompileReport} {compiler : Compiler}
      {log : TransactionLog} {transaction : Transaction}
      (compiled : before.compiler.compile before.log request = .ok (report, compiler, log))
      (accepted : report.verdict = .success)
      (own : report.transaction = transaction.id)
      (logged : log.get? transaction.id = some transaction) :
      Moves before (handOver { before with compiler, log } transaction)
  | abandoned : Moves before { before with compiler := before.compiler.abandonOpen.2 }
  /-- The dependents are told once all waiting code is generated. -/
  | unloaded {id : TransactionId} {count : Nat} {engine : Engine}
      (logged : before.log.contains id = true)
      (spared : before.config.unloadPolicy = .rejectLiveDependents →
        (before.engine.dependents id).1 = [])
      (ran : before.engine.emitPending.unload id = .ok (count, engine)) :
      Moves before (before.remove id engine)

/-- `session` has come from `start` step by step, and is sound. -/
structure Course (start session : Session) : Prop where
  sound : session.Sound
  moves : ReflTransGen Moves start session

variable {start session after : Session}

theorem Moves.sound (moves : session.Moves after) (sound : session.Sound) : after.Sound := by
  cases moves with
  | aside log compiler engine policy => exact sound.of_same log compiler engine
  | worked works succeeds => exact sound.withEngine succeeds
  | rejected compiled refused => exact (sound.compiled compiled).2 refused
  | committed compiled accepted own logged =>
    have committed := (sound.compiled compiled).1 accepted
    rw [own] at committed
    exact committed.handOver logged
  | abandoned => exact sound.abandonOpen
  | unloaded logged spared ran =>
    have generating := sound.engine.emitPending
    exact sound.remove (generating.drops (Engine.unload_drops generating.recorded ran))

theorem Sound.course (sound : session.Sound) : session.Course session := ⟨sound, .refl⟩

namespace Course

/-- What a sound session keeps at each step it keeps on the whole course. -/
theorem keeps {holds : Session → Prop} (course : start.Course session) (began : start.Sound)
    (first : holds start)
    (next : ∀ {before after : Session}, before.Sound → before.Moves after → holds before →
      holds after) : holds session := by
  suffices ∀ {final}, ReflTransGen Moves start final → final.Sound ∧ holds final from
    (this course.moves).2
  intro final moves
  induction moves with
  | refl => exact ⟨began, first⟩
  | tail earlier last inductionHypothesis =>
    obtain ⟨sound, kept⟩ := inductionHypothesis
    exact ⟨last.sound sound, next sound last kept⟩

theorem step (course : start.Course session) (moves : session.Moves after) : start.Course after :=
  ⟨moves.sound course.sound, course.moves.tail moves⟩

theorem work (course : start.Course session) {engine : Engine}
    (works : ReflTransGen Engine.Works session.engine engine)
    (succeeds : session.engine.Succeeds engine) : start.Course { session with engine } :=
  course.step (.worked works succeeds)

theorem aside (course : start.Course session) (log : after.log = session.log)
    (compiler : after.compiler = session.compiler) (engine : after.engine = session.engine)
    (policy : after.config.unloadPolicy = session.config.unloadPolicy) : start.Course after :=
  course.step (.aside log compiler engine policy)

/-- A change of the host that keeps what is registered with it. -/
theorem withHost (course : start.Course session) (host : HostState)
    (loadedFiles : List LoadedFile) (same : host.atExit = session.engine.host.atExit) :
    start.Course { session with engine := { session.engine with host, loadedFiles } } :=
  course.work (.single (Engine.works_withHost _ host loadedFiles))
    (course.sound.engine.withSameActions host loadedFiles same)

theorem notify (course : start.Course session) (notification : Notification) :
    start.Course (session.notify notification) := by
  unfold Session.notify
  split
  · exact course
  · split
    · exact course.withHost _ _ rfl
    · exact course

end Course

theorem Sound.notify (sound : session.Sound) (notification : Notification) :
    (session.notify notification).Sound :=
  (sound.course.notify notification).sound

end IncrementalC.Session
