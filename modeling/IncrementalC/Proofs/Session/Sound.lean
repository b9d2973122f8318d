import IncrementalC.Proofs.Compilation.Sound
import IncrementalC.Proofs.Engine.Unloading
import IncrementalC.Proofs.Session.Operation

/-!
Contract: sound sessions.

The engine is handed the code of a transaction once, right after the commit: the number
is new, or it is that of the transaction that waited for more input, which was never
committed.

Owns: sound sessions, and that what is done with the parts of a session keeps it sound.

Does not own: which parts an operation uses, or what follows for the journal.
-/

namespace IncrementalC

namespace Session

/-! ## Sound sessions -/

/-- The parts of a session are sound, and all code that was ever tracked belongs to
transactions that were begun and do not wait for more input. -/
structure Composed (session : Session) : Prop where
  compiler : session.compiler.Sound session.log
  engine : session.engine.Recorded
  tracked : ∀ id, Tracked session.engine.journal id →
    id.number < session.log.nextNumber ∧ ∀ waiting ∈ session.compiler.opened, waiting.id ≠ id

/-- The engine knows the code of the logged transactions. -/
structure Sound (session : Session) : Prop extends Composed session where
  agrees : ∀ id, session.engine.state? id = none ↔ session.log.contains id = false

/-- The session is sound but for one logged transaction, the newest, whose code is still to
be tracked. -/
structure Committed (id : TransactionId) (session : Session) : Prop extends Composed session where
  logged : session.log.contains id = true
  newer : ∀ other, Tracked session.engine.journal other → other.number < id.number
  agrees : ∀ other, other ≠ id →
    (session.engine.state? other = none ↔ session.log.contains other = false)

theorem sound_new (config : Config) (source : LibrarySource) (files : Files.FileTree) :
    (new config source files).Sound where
  compiler := Compiler.sound_new
  engine := Engine.recorded_new config.limits source
  tracked _ known := by
    obtain ⟨_, member, -⟩ := known
    exact absurd member List.not_mem_nil
  agrees _ := ⟨fun _ => rfl, fun _ => rfl⟩

variable {session : Session}

theorem Sound.withEngine (sound : session.Sound) {engine : Engine}
    (succeeds : session.engine.Succeeds engine) : { session with engine }.Sound where
  compiler := sound.compiler
  engine := succeeds.recorded
  tracked id known := sound.tracked id (succeeds.tracked id known)
  agrees id := (succeeds.known id).trans (sound.agrees id)

/-- A change of the host that keeps what is registered with it. -/
theorem Sound.withHost (sound : session.Sound) (host : HostState) (loadedFiles : List LoadedFile)
    (same : host.atExit = session.engine.host.atExit) :
    { session with engine := { session.engine with host, loadedFiles } }.Sound :=
  sound.withEngine (sound.engine.withSameActions host loadedFiles same)

/-- A session with the same log, compiler and engine. -/
theorem Sound.of_same (sound : session.Sound) {after : Session} (log : after.log = session.log)
    (compiler : after.compiler = session.compiler) (engine : after.engine = session.engine) :
    after.Sound := by
  obtain ⟨⟨compiled, recorded, tracked⟩, agrees⟩ := sound
  refine ⟨⟨?_, ?_, ?_⟩, ?_⟩
  · rw [log, compiler]
    exact compiled
  · rw [engine]
    exact recorded
  · rw [log, compiler, engine]
    exact tracked
  · rw [log, engine]
    exact agrees

/-! ## Compiling -/

theorem Sound.compiled (sound : session.Sound) {request : CompileRequest} {report : CompileReport}
    {compiler : Compiler} {log : TransactionLog}
    (compiled : session.compiler.compile session.log request = .ok (report, compiler, log)) :
    (report.verdict = .success →
        Committed report.transaction { session with compiler, log }) ∧
      (report.verdict ≠ .success → Sound { session with compiler, log }) := by
  obtain ⟨_, _, _, answered, settles⟩ := sound.compiler.compile request
  cases answered.symm.trans compiled
  have newest := settles.newest
  -- What is tracked is older than the transaction of the request.
  have newer : ∀ id, Tracked session.engine.journal id → id.number < report.transaction.number := by
    intro id known
    obtain ⟨below, waiting⟩ := sound.tracked id known
    rcases settles.begun with ⟨opened, waits, same⟩ | next
    · have latest := sound.compiler.latest opened waits
      have differs : opened.id.number ≠ id.number := fun same =>
        waiting opened waits (congrArg TransactionId.mk same)
      rw [same]
      omega
    · rw [next]
      exact below
  have composed : Composed { session with compiler, log } := by
    refine ⟨settles.sound, sound.engine, ?_⟩
    intro id known
    have below := newer id known
    refine ⟨by dsimp only; omega, ?_⟩
    intro waiting waits same
    rw [← same, settles.opened waiting waits] at below
    exact Nat.lt_irrefl _ below
  constructor
  · intro succeeded
    refine { composed with logged := ?_, newer, agrees := ?_ }
    · simp [settles.contains, succeeded]
    · intro other differs
      dsimp only
      rw [settles.contains, decide_eq_false differs.symm, Bool.and_false, Bool.false_or]
      exact sound.agrees other
  · intro failed
    refine { composed with agrees := ?_ }
    intro other
    dsimp only
    rw [settles.contains, decide_eq_false failed]
    exact sound.agrees other

theorem Sound.abandonOpen (sound : session.Sound) :
    Sound { session with compiler := session.compiler.abandonOpen.2 } := by
  refine ⟨⟨sound.compiler.abandonOpen, sound.engine, ?_⟩, sound.agrees⟩
  intro id known
  refine ⟨(sound.tracked id known).1, ?_⟩
  intro waiting waits
  unfold Compiler.abandonOpen at waits
  split at waits
  · exact (sound.tracked id known).2 waiting waits
  · cases waits

/-- The session once the engine has the code of a logged transaction. -/
def handOver (session : Session) (transaction : Transaction) : Session :=
  let (unit, checker) := session.compiler.checker.collectUnit transaction.id
  { session with
    compiler := { session.compiler with checker },
    engine := session.engine.track transaction unit }

/-- What is logged is handed over, and its commit is told. -/
theorem trackCommitted_ends {transaction : Transaction} {afterwards : PUnit → Session → Prop}
    (logged : session.log.get? transaction.id = some transaction)
    (holds : afterwards ⟨⟩ ((session.handOver transaction).notify (.committed transaction))) :
    Ends (trackCommitted transaction.id) session afterwards := by
  apply ends_modify
  dsimp only
  rw [logged]
  exact holds

theorem Committed.handOver {transaction : Transaction}
    (committed : session.Committed transaction.id)
    (logged : session.log.get? transaction.id = some transaction) :
    (session.handOver transaction).Sound := by
  have lowered := (Checker.collectUnit_wellLowered committed.compiler.units transaction.id).1
  have untracked := committed.engine.untracked fun known =>
    Nat.lt_irrefl _ (committed.newer _ known)
  refine ⟨⟨committed.compiler.collectUnit transaction.id,
    committed.engine.track committed.newer lowered, ?_⟩, ?_⟩
  · intro other known
    rcases Engine.tracked_track.mp known with rfl | old
    · refine ⟨?_, ?_⟩
      · exact committed.compiler.logged.allocated transaction (TransactionLog.mem_of_get? logged)
      · intro waiting waits same
        have unlogged := (committed.compiler.opened waiting waits).unlogged
        rw [same, logged] at unlogged
        cases unlogged
    · exact committed.tracked other old
  · intro other
    dsimp only [Session.handOver]
    by_cases same : transaction.id = other
    · subst same
      rw [Engine.state?_track _ untracked, if_pos rfl, committed.logged]
      exact ⟨nofun, nofun⟩
    · rw [Engine.state?_track_of_ne _ untracked same]
      exact committed.agrees other (Ne.symm same)

/-- What is accepted is logged as the newest transaction, and the session is sound again once the
code is handed over. -/
theorem Sound.exists_newest (sound : session.Sound) {request : CompileRequest}
    {report : CompileReport} {compiler : Compiler} {log : TransactionLog}
    (compiled : session.compiler.compile session.log request = .ok (report, compiler, log))
    (accepted : report.verdict = .success) :
    ∃ transaction, transaction.id = report.transaction ∧
      Compiler.LogsNewest session.compiler session.log request transaction compiler log ∧
      (Session.handOver { session with compiler, log } transaction).Sound := by
  have committed := (sound.compiled compiled).1 accepted
  obtain ⟨transaction, own, newest⟩ := (sound.compiler.compile_appends compiled).1 accepted
  rw [← own] at committed
  exact ⟨transaction, own, newest, committed.handOver newest.found⟩

/-! ## Unloading -/

/-- The session once a transaction is removed, with what is left of the engine. -/
def remove (session : Session) (id : TransactionId) (engine : Engine) : Session :=
  let (_, compiler, log) := session.compiler.unload session.log id
  { session with engine, compiler, log }

theorem remove_of_logged {id : TransactionId} {transaction : Transaction}
    (logged : session.log.get? id = some transaction) (engine : Engine) :
    session.remove id engine =
      { session with
        engine, log := session.log.erase id,
        compiler.checker := session.compiler.checker.forget id } := by
  unfold remove Compiler.unload
  rw [logged]

/-- Removing a transaction from the engine and from the log takes its code with it. -/
theorem Sound.remove (sound : session.Sound) {id : TransactionId} {engine : Engine}
    (drops : Engine.Drops id session.engine engine) : (session.remove id engine).Sound := by
  refine ⟨⟨sound.compiler.unload id, drops.recorded, ?_⟩, ?_⟩
  · intro other known
    obtain ⟨below, waiting⟩ := sound.tracked other (drops.tracked other known)
    change other.number < (session.compiler.unload session.log id).2.2.nextNumber ∧
      ∀ opened ∈ (session.compiler.unload session.log id).2.1.opened, opened.id ≠ other
    unfold Compiler.unload
    split <;> exact ⟨below, waiting⟩
  · intro other
    refine (drops.known other).trans ?_
    rw [sound.agrees other]
    change _ ↔ (session.compiler.unload session.log id).2.2.contains other = false
    rw [Compiler.contains_unload]
    by_cases same : other = id <;> simp [same]

end Session

end IncrementalC
