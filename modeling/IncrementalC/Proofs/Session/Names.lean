import IncrementalC.Proofs.Analysis.Ownership
import IncrementalC.Proofs.Engine.Names
import IncrementalC.Proofs.Session.Performing

/-!
Contract: declarations and code agree on who defines a name.

A transaction has code only for names that it defines by live records, and no two
transactions define one name. The records and the code of a transaction go together, so
that names of code that is accepted later are new, however long the code waits.

Owns: what a request and a removal do to the owners of names, and that code is never
refused for a name that is defined twice.

Does not own: names of native functions.
-/

namespace IncrementalC

open DeclarationTable (OwnedBy SoleOwners)

/-! ## Owners after a request -/

namespace Compiler

variable {checker : Checker} {log logged : TransactionLog} {transaction : Transaction}
  {items : List Syntax.Item} {after : Compiler} {owner : TransactionId} {name : String}

theorem Undoes.ownedBy_iff (undoes : Undoes checker log transaction after logged) :
    OwnedBy after.checker.table.records owner name ↔ OwnedBy checker.table.records owner name := by
  obtain ⟨gap, records, forgotten⟩ := undoes.records
  have dead : ∀ record ∈ gap, record.isLive = false := fun record member => by
    simp [DeclarationRecord.isLive, (forgotten record member).2]
  have nobody : ¬ OwnedBy gap owner name := DeclarationTable.not_ownedBy_forgotten dead
  rw [records, DeclarationTable.ownedBy_append_iff, or_iff_left nobody]

theorem Logs.ownedBy_iff (logs : Logs checker log transaction items after logged) :
    OwnedBy after.checker.table.records owner name ↔
      OwnedBy (analyze items checker.table transaction.id).table.records owner name := by
  rw [logs.records, DeclarationTable.ownedBy_shown]

/-- Owners of names stay. -/
theorem Logs.ownedBy (logs : Logs checker log transaction items after logged)
    (owned : OwnedBy checker.table.records owner name) :
    OwnedBy after.checker.table.records owner name := by
  obtain ⟨added, _, records, -⟩ :=
    (Analysis.analyze_extends items checker.table transaction.id).added
  change (analyze items checker.table transaction.id).table.records = _ at records
  rw [logs.ownedBy_iff, records]
  exact DeclarationTable.ownedBy_append_iff.mpr (.inl owned)

/-- The code of a logged text defines names of its transaction, each once. -/
theorem Logs.coded (logs : Logs checker log transaction items after logged)
    {holds : TransactionId → String → Prop} {limit : Nat} (sole : SoleOwners checker.table.records)
    (attributed : Attributed checker.table.records holds) (settled : checker.Settled limit)
    (newest : transaction.id.number + 1 = limit) :
    Analysis.Coded transaction.id (analyze items checker.table transaction.id) := by
  refine .analyze sole ⟨?_, settled.table, ?_⟩ logs.errorless
  · exact attributed.mono fun _ _ _ _ _ _ => trivial
  · rw [newest]
    exact settled.below

end Compiler

namespace Session

variable {session before after : Session}

/-! ## Coherent sessions -/

/-- No name has two owners, the code of a transaction is for names that it owns, and no names
ever clashed. -/
structure Coherent (session : Session) : Prop where
  /-- All code was handed out. -/
  units : session.compiler.checker.units = []
  sole : SoleOwners session.compiler.checker.table.records
  owned : ∀ entry ∈ session.engine.states, ∀ name ∈ entry.2.names,
    OwnedBy session.compiler.checker.table.records entry.1 name
  clashless : session.engine.Clashless

theorem coherent_new (config : Config) (source : LibrarySource) (files : Files.FileTree) :
    (new config source files).Coherent where
  units := rfl
  sole := DeclarationTable.soleOwners_nil
  owned _ member := absurd member List.not_mem_nil
  clashless := Engine.clashless_new config.limits source

namespace Coherent

/-- Work with the code leaves the names of every transaction among those it had. -/
theorem worked (coherent : session.Coherent) {engine : Engine}
    (works : Relation.ReflTransGen Engine.Works session.engine engine) :
    Coherent { session with engine } := by
  obtain ⟨clashless, inherits⟩ := coherent.clashless.worked works
  refine { coherent with owned := ?_, clashless }
  intro entry member name has
  obtain ⟨old, oldMember, same, names⟩ := inherits entry member
  rw [← same]
  exact coherent.owned old oldMember name (names name has)

/-- If the same names have the same owners and no code waits to be handed out, the compiler may
change. -/
theorem withCompiler (coherent : session.Coherent) (compiler : Compiler)
    (units : compiler.checker.units = [])
    (owners : ∀ owner name, OwnedBy compiler.checker.table.records owner name ↔
      OwnedBy session.compiler.checker.table.records owner name) (log : TransactionLog) :
    Coherent { session with compiler, log } where
  units := units
  sole := coherent.sole.of_imp fun owner name => (owners owner name).mp
  owned entry member name has := (owners _ _).mpr (coherent.owned entry member name has)
  clashless := coherent.clashless

theorem rejected (coherent : session.Coherent) (sound : session.Sound) {request : CompileRequest}
    {report : CompileReport} {compiler : Compiler} {log : TransactionLog}
    (compiled : session.compiler.compile session.log request = .ok (report, compiler, log))
    (refused : report.verdict ≠ .success) : Coherent { session with compiler, log } := by
  obtain ⟨begun, allocated, -, -, -, -, leaves⟩ :=
    Compiler.compile_cases sound.compiler.toWellFormed compiled
  rcases leaves with ⟨accepted, -⟩ | ⟨-, undoes⟩
  · exact absurd accepted refused
  · exact coherent.withCompiler compiler (undoes.units.trans coherent.units)
      (fun _ _ => undoes.ownedBy_iff) log

/-- What has a name among live or waiting code owns the name. -/
theorem exists_owner (coherent : session.Coherent) (sound : session.Sound) {name : String}
    (known : name ∈ session.engine.machine.definedNames ∨
      name ∈ CodeStates.waitingNames session.engine.states) :
    ∃ entry ∈ session.engine.states,
      OwnedBy session.compiler.checker.table.records entry.1 name := by
  rcases known with defined | waits
  · obtain ⟨module, live, defines⟩ := List.mem_flatMap.mp defined
    obtain ⟨id, initialized, state⟩ := sound.engine.wellFormed.exists_state live
    have member := CodeStates.mem_of_find state
    exact ⟨_, member, coherent.owned _ member name defines⟩
  · obtain ⟨entry, member, waits⟩ := List.mem_flatMap.mp waits
    exact ⟨entry, member,
      coherent.owned entry member name (CodeState.mem_names_of_waiting waits)⟩

theorem committed (coherent : session.Coherent) (sound : session.Sound) {request : CompileRequest}
    {report : CompileReport} {compiler : Compiler} {log : TransactionLog}
    {transaction : Transaction}
    (compiled : session.compiler.compile session.log request = .ok (report, compiler, log))
    (accepted : report.verdict = .success) (own : report.transaction = transaction.id) :
    (handOver { session with compiler, log } transaction).Coherent := by
  have newer := ((sound.compiled compiled).1 accepted).newer
  obtain ⟨begun, allocated, chosen, -, settled, same, leaves⟩ :=
    Compiler.compile_cases sound.compiler.toWellFormed compiled
  rcases leaves with ⟨-, items, -, logs⟩ | ⟨refused, -⟩
  swap
  · exact absurd accepted refused
  have newest := sound.compiler.transactionFor_newest request
  rw [chosen] at newest
  have coded := logs.coded coherent.sole sound.compiler.attributed settled newest
  have id : transaction.id = (begun.continuedBy request.text).id := own.symm.trans same
  have unique : SoleOwners compiler.checker.table.records :=
    coded.sole.of_imp fun _ _ => logs.ownedBy_iff.mp
  have owns : ∀ name ∈ (analyze items session.compiler.checker.table
      transaction.id).unit.definedNames,
      OwnedBy compiler.checker.table.records transaction.id name := by
    rw [id]
    exact fun name member => logs.ownedBy_iff.mpr (coded.owned name member)
  have absent : ∀ entry ∈ session.engine.states, entry.1 ≠ transaction.id := by
    intro entry member same
    have below := sound.engine.newest newer entry member
    rw [own, same] at below
    exact Nat.lt_irrefl _ below
  have collected := logs.collectUnit
  rw [coherent.units] at collected
  rw [← id] at coded collected
  unfold handOver
  dsimp only
  rw [collected]
  refine ⟨rfl, unique, ?_, coherent.clashless.track absent coded.distinct ?_⟩
  · intro entry member name has
    rcases Engine.mem_states_track member with old | ⟨own, names⟩
    · exact logs.ownedBy (coherent.owned entry old name has)
    · rw [own]
      exact owns name (names name has)
  · intro name member
    rw [← not_or]
    intro known
    obtain ⟨entry, old, owned⟩ := coherent.exists_owner sound known
    exact absent entry old (unique name _ _ (logs.ownedBy owned) (owns name member))

theorem abandoned (coherent : session.Coherent) (sound : session.Sound) :
    Coherent { session with compiler := session.compiler.abandonOpen.2 } := by
  unfold Compiler.abandonOpen
  cases waits : session.compiler.opened with
  | none => exact coherent
  | some waiting =>
    have untouched := (sound.compiler.opened waiting waits).untouched
    refine coherent.withCompiler (Compiler.rollBack _ waiting) ?_ ?_ session.log
    · change Checker.dropUnit waiting.id session.compiler.checker.units = []
      rw [coherent.units]
      rfl
    · intro owner name
      change OwnedBy (session.compiler.checker.table.forget waiting.id).2.records owner name ↔ _
      rw [DeclarationTable.forget_records, Compiler.forget_untouched untouched.records]

theorem unloaded (coherent : session.Coherent) {id : TransactionId} {count : Nat} {engine : Engine}
    (logged : session.log.contains id = true)
    (ran : session.engine.emitPending.unload id = .ok (count, engine)) :
    (session.remove id engine).Coherent := by
  obtain ⟨between, run, rfl⟩ := Engine.unload_course ran
  have running := (coherent.worked (.single .generated)).worked (Engine.runOwned_works run)
  obtain ⟨transaction, found⟩ := Option.isSome_iff_exists.mp logged
  have removed : session.compiler.unload session.log id =
      (some transaction, { session.compiler with checker := session.compiler.checker.forget id },
        session.log.erase id) := by
    unfold Compiler.unload
    rw [found]
  unfold remove
  rw [removed]
  have owners : ∀ owner name,
      OwnedBy (session.compiler.checker.forget id).table.records owner name ↔
        owner ≠ id ∧ OwnedBy session.compiler.checker.table.records owner name := by
    intro owner name
    change OwnedBy (session.compiler.checker.table.forget id).2.records owner name ↔ _
    rw [DeclarationTable.forget_records, DeclarationTable.ownedBy_hidden]
  refine ⟨?_, ?_, ?_, running.clashless.dropCode id⟩
  · change Checker.dropUnit id session.compiler.checker.units = []
    rw [coherent.units]
    rfl
  · exact coherent.sole.of_imp fun owner name owned => ((owners owner name).mp owned).2
  · intro entry member name has
    obtain ⟨old, other⟩ := List.mem_filter.mp member
    exact (owners _ _).mpr ⟨of_decide_eq_true other, running.owned entry old name has⟩

end Coherent

theorem Moves.coherent (moves : before.Moves after) (sound : before.Sound)
    (coherent : before.Coherent) : after.Coherent := by
  cases moves with
  | aside log compiler engine policy =>
    obtain ⟨units, sole, owned, clashless⟩ := coherent
    rw [← compiler] at units sole
    rw [← compiler, ← engine] at owned
    rw [← engine] at clashless
    exact ⟨units, sole, owned, clashless⟩
  | worked works succeeds => exact coherent.worked works
  | rejected compiled refused => exact coherent.rejected sound compiled refused
  | committed compiled accepted own logged => exact coherent.committed sound compiled accepted own
  | abandoned => exact coherent.abandoned sound
  | unloaded logged spared ran => exact coherent.unloaded logged ran

/-! ## All runs -/

/-- The code and its states at all times of a session, newest first. -/
def moments (session : Session) : List (Machine × CodeStates) :=
  (session.engine.machine, session.engine.states) ::
    session.engine.journal.map fun entry => (entry.machine, entry.states)

/-- At all times of a run the names that live modules define and those that accepted code is
still to define are all different, and no code was ever refused because a name would have been
defined twice. Every name that a transaction has code for is declared by a live record of the
transaction that defines it, and by no other transaction. -/
theorem code_is_never_refused_for_its_names {config : Config} {source : LibrarySource}
    {files : Files.FileTree} {operations : List Operation} {answers : List Answer}
    {session : Session}
    (performed : performAll operations (new config source files) = .ok (answers, session)) :
    (∀ code states, (code, states) ∈ session.moments →
      (code.definedNames ++ CodeStates.waitingNames states).Nodup ∧
      ∀ id name, (id, CodeState.failed (.duplicateSymbol name)) ∉ states) ∧
    ∀ id state, session.engine.state? id = some state → ∀ name ∈ state.names,
      OwnedBy session.compiler.checker.table.records id name ∧
      ∀ other, OwnedBy session.compiler.checker.table.records other name → other = id := by
  have coherent : session.Coherent :=
    holds_of_performAll Coherent performed (coherent_new config source files)
      fun sound moves coherent => moves.coherent sound coherent
  refine ⟨?_, ?_⟩
  · intro code states member
    have clashless : NoClash code states := by
      rcases List.mem_cons.mp member with now | noted
      · obtain ⟨rfl, rfl⟩ := Prod.mk.inj now
        exact coherent.clashless.now
      · obtain ⟨entry, entryMember, same⟩ := List.mem_map.mp noted
        obtain ⟨rfl, rfl⟩ := Prod.mk.inj same
        exact coherent.clashless.noted entry entryMember
    exact ⟨clashless.distinct, clashless.accepted⟩
  · intro id state known name has
    have owned := coherent.owned _ (CodeStates.mem_of_find known) name has
    exact ⟨owned, fun other others => coherent.sole name other id others owned⟩

/-- A function is declared, defined, declared again and unloaded, and cannot be defined anew while
a declaration is left that remembers the definition. A refused definition and input of headers
leave no code, and a missing function is loaded on the way. -/
theorem a_function_is_defined_anew_once_it_is_forgotten :
    let operations : List Operation :=
      [.setProvider fun name =>
          if name = "late" then some "int late() \x7b return 4; \x7d" else none,
        .submit .declare "int late(); int f();",
        .submit .headerOnly "int h; int k() \x7b return 1; \x7d",
        .submit .declare "int f() \x7b return late(); \x7d",
        .submit .declare "int g; int f() \x7b return 2; \x7d", .submit .declare "int f();",
        .submit .evaluate "f()", .unload ⟨2⟩, .submit .declare "int f() \x7b return 5; \x7d",
        .unload ⟨4⟩, .submit .declare "int f() \x7b return 5; \x7d", .submit .evaluate "f()"]
    ∃ answers session,
      performAll operations (new .standard .sharedObjects []) = .ok (answers, session) ∧
      session.log.ids = [⟨0⟩, ⟨1⟩, ⟨5⟩, ⟨6⟩, ⟨8⟩, ⟨9⟩] ∧
      session.engine.machine.definedNames =
        ["__weft_Un1Qu30", "late", "f", "__weft_Un1Qu31"] ∧
      ∀ code states, (code, states) ∈ session.moments →
        (code.definedNames ++ CodeStates.waitingNames states).Nodup ∧
        ∀ id name, (id, CodeState.failed (.duplicateSymbol name)) ∉ states := by
  intro operations
  have facts :
      (performAll operations (new .standard .sharedObjects [])).toOption.map (fun result =>
        decide (result.2.log.ids = [⟨0⟩, ⟨1⟩, ⟨5⟩, ⟨6⟩, ⟨8⟩, ⟨9⟩] ∧
          result.2.engine.machine.definedNames =
            ["__weft_Un1Qu30", "late", "f", "__weft_Un1Qu31"])) = some true := by
    decide +kernel
  obtain ⟨⟨answers, session⟩, performed, facts⟩ := Option.map_eq_some_iff.mp facts
  obtain ⟨logged, defined⟩ := of_decide_eq_true facts
  have performed := ok_of_toOption performed
  exact ⟨answers, session, performed, logged, defined,
    (code_is_never_refused_for_its_names performed).1⟩

end Session

end IncrementalC
