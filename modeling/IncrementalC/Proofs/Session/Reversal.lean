import IncrementalC.Proofs.Engine.Reversal
import IncrementalC.Proofs.Session.Agreement
import IncrementalC.Proofs.Session.Chunks
import IncrementalC.Proofs.Session.Isolation

/-!
Contract: a declaration that is unloaded at once has changed nothing.

The transaction of a declaration has the newest number, so its records hide older ones and no other
record, its code is generated last, and no at-exit action is its own. Unloading it takes away the
records and the module, and runs nothing.

Owns: the owners of pending at-exit actions, and the session after a declaration is unloaded.

Does not own: declarations that were run meanwhile.
-/

namespace IncrementalC

/-- The owner is a library, or a transaction that was begun. -/
def TransactionLog.HasBegun (log : TransactionLog) : AtExitOwner → Prop
  | .transaction id => id.number < log.nextNumber
  | .library _ => True

theorem TransactionLog.HasBegun.mono {log longer : TransactionLog} {owner : AtExitOwner}
    (begun : log.HasBegun owner) (more : log.nextNumber ≤ longer.nextNumber) :
    longer.HasBegun owner := by
  cases owner with
  | transaction id => exact Nat.lt_of_lt_of_le begun more
  | library name => trivial

/-- What is declared and forgotten at once leaves forgotten records. -/
theorem Compiler.LogsNewest.onlyGapAdded {compiler after : Compiler} {log logged : TransactionLog}
    {request : CompileRequest} {transaction : Transaction}
    (newest : LogsNewest compiler log request transaction after logged)
    (wellFormed :
      ((after.checker.collectUnit transaction.id).2.forget transaction.id).table.WellFormed) :
    OnlyGapAdded compiler.checker
      ((after.checker.collectUnit transaction.id).2.forget transaction.id) := by
  obtain ⟨items, -, -, records, units⟩ := newest.reads
  obtain ⟨added, _, extended, owned, -⟩ :=
    (Analysis.analyze_extends items compiler.checker.table transaction.id).added
  have untouched := newest.untouched
  have collected : (after.checker.collectUnit transaction.id).2 =
      { after.checker with
        units := Checker.dropUnit transaction.id compiler.checker.units } := by
    rw [Checker.collectUnit, units, List.find?_cons_of_pos (by simp)]
    simp [Checker.dropUnit]
  rw [collected, dropUnit_untouched untouched.units] at wellFormed ⊢
  refine ⟨wellFormed, ⟨(added.map (DeclarationTable.shown
    transaction.id)).map (DeclarationTable.hidden transaction.id), ?_, ?_⟩,
    dropUnit_untouched untouched.units⟩
  · change (after.checker.table.forget transaction.id).2.records = _
    rw [DeclarationTable.forget_records, records, extended, List.map_append, List.map_append]
    change (compiler.checker.table.records.map _).map _ ++ _ = _
    rw [commit_untouched untouched.records, forget_untouched untouched.records]
  · intro record member
    rw [List.map_map] at member
    obtain ⟨original, originalMember, rfl⟩ := List.mem_map.mp member
    simp [DeclarationTable.isLive_hidden, (owned original originalMember).1]

namespace Session

variable {session after : Session}

/-! ## Owners -/

/-- A sound session where no at-exit action waits for a transaction that is not begun. -/
structure Owned (session : Session) : Prop where
  sound : session.Sound
  owners : ∀ action ∈ session.engine.host.atExit, session.log.HasBegun action.owner

namespace Owned

theorem withEngine (owned : session.Owned) {engine : Engine}
    (succeeds : session.engine.Succeeds engine)
    (contained : session.engine.Contained session.log.HasBegun engine) :
    { session with engine }.Owned :=
  ⟨owned.sound.withEngine succeeds, contained.owners owned.owners⟩

/-- A change of the host that keeps what is registered with it. -/
theorem withHost (owned : session.Owned) (host : HostState) (loadedFiles : List LoadedFile)
    (same : host.atExit = session.engine.host.atExit) :
    { session with engine := { session.engine with host, loadedFiles } }.Owned :=
  ⟨owned.sound.withHost host loadedFiles same,
    fun action member => owned.owners action (same ▸ member)⟩

theorem notify (owned : session.Owned) (notification : Notification) :
    (session.notify notification).Owned := by
  unfold Session.notify
  split
  · exact owned
  · split
    · exact owned.withHost _ _ rfl
    · exact owned

/-- The transactions that have code were begun. -/
theorem states (owned : session.Owned) :
    ∀ id ∈ session.engine.states.map Prod.fst, session.log.HasBegun (.transaction id) := by
  intro id known
  obtain ⟨transaction, logged, rfl⟩ := List.mem_map.mp ((owned.sound.mem_states_iff id).mp known)
  exact owned.sound.compiler.logged.allocated transaction logged

end Owned

theorem keptByRuns_owned : KeptByRuns Owned where
  aside _ _ _ owned := ⟨owned.sound.of_same rfl rfl rfl, owned.owners⟩
  executed owned ran := owned.withEngine (Engine.emitAndRun_succeeds owned.sound.engine ran)
    (Engine.emitAndRun_contained owned.states ran)
  asked _ owned := owned.withHost _ _ rfl
  rejected owned compiled refused := by
    obtain ⟨more, -⟩ := Compiler.compile_logs owned.sound.compiler compiled
    exact ⟨(owned.sound.compiled compiled).2 refused,
      fun action member => (owned.owners action member).mono more⟩
  committed := by
    intro session request report compiler log owned compiled accepted
    obtain ⟨more, -⟩ := Compiler.compile_logs owned.sound.compiler compiled
    obtain ⟨transaction, own, newest, sound⟩ := owned.sound.exists_newest compiled accepted
    rw [← own]
    have handed : (handOver { session with compiler, log } transaction).Owned :=
      ⟨sound, fun action member => (owned.owners action member).mono more⟩
    exact trackCommitted_ends newest.found (handed.notify _)
  abandoned owned := ⟨owned.sound.abandonOpen, owned.owners⟩

theorem keptByOperations_owned : KeptByOperations (fun _ => True) Owned where
  toKeptByRuns := keptByRuns_owned
  settled _ _ _ owned := ⟨owned.sound.of_same rfl rfl rfl, owned.owners⟩
  filed _ _ owned := ⟨owned.sound.of_same rfl rfl rfl, owned.owners⟩
  equipped _ _ owned := owned.withHost _ _ rfl
  located name owned :=
    owned.withEngine (Engine.locate_succeeds owned.sound.engine name)
      (Engine.locate_contained _ name)
  destructed owned ran :=
    owned.withEngine (Engine.runStaticDestructors_succeeds owned.sound.engine ran)
      (Engine.runStaticDestructors_contained owned.owners ran)
  told notification owned := owned.notify notification
  opened _ _ owned :=
    ⟨owned.sound.withEngine (Engine.loadLibrary_succeeds owned.sound.engine _ _ _ _),
      Engine.loadLibrary_owners (fun _ => trivial) owned.owners⟩
  closed owned ran :=
    ⟨owned.sound.withEngine (Engine.unloadLibrary_succeeds owned.sound.engine ran),
      Engine.unloadLibrary_owners owned.owners ran⟩
  loaded _ owned _ :=
    keptByRuns_owned.loadSource_ends owned (fun marked => marked.withHost _ _ rfl) _
  generated owned :=
    owned.withEngine owned.sound.engine.emitPending (Engine.emitPending_contained _)
  removed := by
    intro session id count engine owned logged spared ran
    have generating := owned.withEngine owned.sound.engine.emitPending
      session.engine.emitPending_contained
    have contained := Engine.unload_contained generating.owners ran
    refine ⟨generating.sound.remove (Engine.unload_drops generating.sound.engine ran), ?_⟩
    refine fun action member => (contained.owners generating.owners action member).mono ?_
    change session.log.nextNumber ≤ (session.compiler.unload session.log id).2.2.nextNumber
    unfold Compiler.unload
    split <;> exact Nat.le_refl _

/-! ## Declaring -/

/-- What a session is right after its newest transaction was committed. -/
structure Declares (session : Session) (transaction : Transaction) (declared : Session) : Prop where
  newest : transaction.id = ⟨session.log.nextNumber⟩
  entries : declared.log.entries = session.log.entries ++ [transaction]
  gap : (declared.compiler.checker.forget transaction.id).table.WellFormed →
    Compiler.OnlyGapAdded session.compiler.checker
      (declared.compiler.checker.forget transaction.id)
  machine : declared.engine.machine = session.engine.machine
  states : ∃ unit, declared.engine.states =
    session.engine.states ++ [(transaction.id, .pending unit)]
  atExit : declared.engine.host.atExit = session.engine.host.atExit
  resolver : declared.engine.host.resolver = session.engine.host.resolver

theorem Owned.declares (owned : session.Owned) {request : CompileRequest}
    {transaction : Transaction} {compiler : Compiler} {log : TransactionLog}
    (newest : Compiler.LogsNewest session.compiler session.log request transaction compiler log)
    (number : transaction.id = ⟨session.log.nextNumber⟩)
    (generates : transaction.options.generatesCode = true) :
    session.Declares transaction (handOver { session with compiler, log } transaction) where
  newest := number
  entries := newest.entries
  gap := newest.onlyGapAdded
  machine := rfl
  states := by
    refine ⟨(compiler.checker.collectUnit transaction.id).1, ?_⟩
    change Engine.placeState _ (if _ then _ else _) _ = _
    rw [if_pos generates]
    refine Engine.placeState_newest (fun entry member => ?_) _
    exact number ▸ owned.states entry.1 (List.mem_map_of_mem member)
  atExit := rfl
  resolver := rfl

theorem Declares.notify {transaction : Transaction} {declared : Session}
    (declares : session.Declares transaction declared) (notification : Notification) :
    session.Declares transaction (declared.notify notification) := by
  obtain ⟨trace, told⟩ := exists_notify declared notification
  rw [told]
  exact ⟨declares.newest, declares.entries, declares.gap, declares.machine, declares.states,
    declares.atExit, declares.resolver⟩

/-- A declaration that is accepted is the newest transaction, and its code waits. -/
theorem declare_ends (owned : session.Owned) (fresh : session.isContinuing = false)
    (text : String) :
    Ends (submit .declare text) session fun outcome after => outcome.verdict = .success →
      ∃ transaction, outcome.transaction = some transaction.id ∧
        session.Declares transaction after := by
  obtain ⟨-, unopened⟩ := isContinuing_eq_false_iff.mp fresh
  intro outcome after ended
  rw [submit_of_fresh fresh] at ended
  revert outcome after
  refine compileAndRun_accepted owned.sound ?_
  intro outcome transaction compiler log tracked newest handed _ _ own
  have begun := newest.begun
  have options := newest.options
  simp only [Compiler.transactionFor, unopened] at begun options
  have idle : transaction.options.runsInitializers = false := options ▸ rfl
  have generates : transaction.options.generatesCode = true := options ▸ rfl
  rw [idle, handed]
  exact ends_pure ⟨transaction, own, (owned.declares newest begun generates).notify _⟩

/-! ## Unloading what was declared -/

/-- The same is declared, logged and defined, and variables have their values. -/
structure Reverts (session after : Session) : Prop where
  lookup : ∀ name, after.compiler.checker.lookup name = session.compiler.checker.lookup name
  functionInfo? : ∀ name,
    after.compiler.checker.functionInfo? name = session.compiler.checker.functionInfo? name
  isDeclared : ∀ name, after.compiler.isDeclared name = session.compiler.isDeclared name
  entries : after.log.entries = session.log.entries
  resolves : ∀ name,
    after.engine.machine.resolve? name = session.engine.emitPending.machine.resolve? name
  located : ∀ name, (after.engine.locate name).1 = (session.engine.locate name).1
  globals : after.engine.machine.globals = session.engine.emitPending.machine.globals
  values : ∀ name value, session.engine.machine.globalValue? name = some value →
    after.engine.machine.globalValue? name = some value
  atExit : after.engine.host.atExit = session.engine.host.atExit

/-- Unloading what was declared last takes back the declaration. -/
theorem Declares.reverts {declared : Session} {transaction : Transaction}
    (declares : session.Declares transaction declared) (owned : session.Owned)
    (sound : after.Sound) (ended : UnloadEnds declared transaction.id .unloaded after) :
    session.Reverts after := by
  cases ended with
  | @removed count engine removed logged spared ran =>
    obtain ⟨trace, told⟩ := exists_notify (declared.remove transaction.id engine)
      (.unloaded removed)
    rw [told, remove_of_logged logged] at sound ⊢
    have gap := declares.gap sound.compiler.checker.table
    have lookup := gap.lookup_eq owned.sound.compiler.checker.table
    have older : ∀ entry ∈ session.engine.states, entry.1.number < transaction.id.number :=
      fun entry member => declares.newest ▸ owned.states entry.1 (List.mem_map_of_mem member)
    have unowned : ∀ action ∈ declared.engine.host.atExit,
        action.owner ≠ .transaction transaction.id := by
      intro action member own
      rw [declares.atExit] at member
      have begun := owned.owners action member
      rw [own, declares.newest] at begun
      exact Nat.lt_irrefl _ begun
    obtain ⟨unit, placed⟩ := declares.states
    obtain ⟨states, ⟨nextModule, machine⟩, host⟩ :=
      Engine.unload_newest owned.sound.engine.wellFormed
        (fun entry member same => Nat.ne_of_lt (older entry member) (congrArg _ same))
        declares.machine placed unowned ran
    have entries : (declared.log.erase transaction.id).entries = session.log.entries := by
      change declared.log.entries.filter _ = _
      rw [declares.entries, List.filter_append, List.filter_eq_self.mpr]
      · simp
      · intro entry member
        have below := owned.sound.compiler.logged.allocated entry member
        rw [declares.newest]
        exact decide_eq_true fun same => Nat.ne_of_lt below (congrArg _ same)
    have generated : engine.emitPending.machine = engine.machine :=
      Engine.emitPending_of_generated owned.sound.engine.wellFormed states
    refine ⟨?_, ?_, ?_, entries, ?_, ?_, ?_, ?_, ?_⟩
    · intro name
      exact congrArg _ (lookup name)
    · intro name
      simp only [Checker.functionInfo?, lookup]
    · intro name
      exact congrArg (fun record => (Option.map DeclarationRecord.id record).isSome) (lookup name)
    · intro name
      dsimp only
      rw [machine]
      rfl
    · intro name
      refine Engine.locate_fst_congr ?_ ((congrArg HostState.resolver host).trans declares.resolver)
      refine (congrArg (fun machine => machine.resolve? name) generated).trans ?_
      rw [machine]
      rfl
    · dsimp only
      rw [machine]
    · intro name value live
      have kept := Engine.globalValue?_emitPending live
      dsimp only
      rw [machine]
      exact kept
    · exact (congrArg HostState.atExit host).trans declares.atExit

/-- Declaring something and unloading it at once is the identity: the same is declared and logged,
every name is where it is once the code that waited is generated, and variables keep their
values. -/
theorem declaring_and_unloading_is_the_identity {config : Config} {source : LibrarySource}
    {files : Files.FileTree} {operations : List Operation} {answers : List Answer}
    {session declared after : Session} {text : String} {outcome : Outcome} {id : TransactionId}
    (performed : performAll operations (new config source files) = .ok (answers, session))
    (fresh : session.isContinuing = false)
    (declares : perform (.submit .declare text) session = .ok (.outcome outcome, declared))
    (succeeded : outcome.verdict = .success) (own : outcome.transaction = some id)
    (unloads : perform (.unload id) declared = .ok (.unloading .unloaded, after)) :
    session.Reverts after := by
  have began : (new config source files).Owned :=
    ⟨sound_new config source files, fun _ absent => absurd absent List.not_mem_nil⟩
  have owned := keptByOperations_owned.performAll_ends began (fun _ _ => trivial)
    answers session performed
  have declaring : Ends (perform (.submit .declare text)) session fun answer after =>
      answer = .outcome outcome → ∃ transaction, outcome.transaction = some transaction.id ∧
        session.Declares transaction after := by
    refine ends_map ((declare_ends owned fresh text).mono ?_)
    rintro _ after declares ⟨⟩
    exact declares succeeded
  obtain ⟨transaction, number, newest⟩ := declaring _ _ declares rfl
  obtain rfl := Option.some.inj (number.symm.trans own)
  have sound := perform_ends (perform_ends owned.sound _ _ _ declares) _ _ _ unloads
  have unloading : Ends (perform (.unload transaction.id)) declared fun answer after =>
      answer = .unloading .unloaded → UnloadEnds declared transaction.id .unloaded after := by
    refine ends_map ((unloadTransaction_unloadEnds declared transaction.id).mono ?_)
    rintro _ after ended ⟨⟩
    exact ended
  exact newest.reverts owned sound (unloading _ _ unloads rfl)

/-- A function is declared of which a prototype is known, with a variable of its own, while a body
that calls it waits. -/
theorem the_prototype_is_all_that_is_left_again :
    let operations := [.submit .declare "int a = 1;", .submit .evaluate "a",
      .submit .declare "int g(); int f() { return g(); }"]
    let text := "int g() { return a; } int b = 2;"
    ∃ answers session outcome declared after,
      performAll operations (new .standard .sharedObjects []) = .ok (answers, session) ∧
      session.isContinuing = false ∧
      perform (.submit .declare text) session = .ok (.outcome outcome, declared) ∧
      outcome.verdict = .success ∧ outcome.transaction = some ⟨3⟩ ∧
      perform (.unload ⟨3⟩) declared = .ok (.unloading .unloaded, after) ∧
      declared.compiler.isDeclared "b" = true ∧ session.Reverts after ∧
      after.compiler.isDeclared "b" = false ∧
      after.compiler.checker.functionInfo? "g" = some ⟨⟨2⟩, 0, none⟩ ∧
      after.engine.machine.globalValue? "a" = some 1 := by
  intro operations text
  have facts :
      ((performAll operations (new .standard .sharedObjects [])).toOption.bind fun result =>
        (submit .declare text result.2).toOption.bind fun declaring =>
          (perform (.unload ⟨3⟩) declaring.2).toOption.map fun unloading =>
            decide (result.2.isContinuing = false ∧ declaring.1.verdict = .success ∧
              declaring.1.transaction = some ⟨3⟩ ∧ unloading.1 = .unloading .unloaded ∧
              declaring.2.compiler.isDeclared "b" = true ∧
              result.2.compiler.isDeclared "b" = false ∧
              result.2.compiler.checker.functionInfo? "g" = some ⟨⟨2⟩, 0, none⟩ ∧
              result.2.engine.machine.globalValue? "a" = some 1)) = some true := by decide +kernel
  obtain ⟨⟨answers, session⟩, performed, facts⟩ := Option.bind_eq_some_iff.mp facts
  obtain ⟨⟨outcome, declared⟩, submitted, facts⟩ := Option.bind_eq_some_iff.mp facts
  obtain ⟨⟨_, after⟩, unloads, facts⟩ := Option.map_eq_some_iff.mp facts
  obtain ⟨fresh, succeeded, own, rfl, added, absent, prototype, value⟩ := of_decide_eq_true facts
  have performed := ok_of_toOption performed
  have unloads := ok_of_toOption unloads
  have declares : perform (.submit .declare text) session = .ok (.outcome outcome, declared) := by
    change (submit .declare text session >>= fun ended => _) = _
    rw [ok_of_toOption submitted]
    rfl
  have reverts :=
    declaring_and_unloading_is_the_identity performed fresh declares succeeded own unloads
  exact ⟨answers, session, outcome, declared, after, performed, fresh, declares, succeeded, own,
    unloads, added, reverts, (reverts.isDeclared "b").trans absent,
    (reverts.functionInfo? "g").trans prototype, reverts.values "a" 1 value⟩

end Session

end IncrementalC
