import IncrementalC.Proofs.Engine.Bindings
import IncrementalC.Proofs.Session.Performing

/-!
Contract: what the policy that keeps used transactions is worth.

Dependents are told from the references that were noted when code was generated, and all
waiting code is generated before they are told. So nothing that lives refers to what was
removed, and what live code refers to resolves to the same as long as the code lives.

Owns: the code at all times of a run, and unloading under the policy.

Does not own: unloading when every removal is allowed.
-/

namespace IncrementalC

/-- The code as it stood at all times, newest first. -/
def Engine.machines (engine : Engine) : List Machine :=
  engine.machine :: engine.journal.map JournalEntry.machine

theorem Engine.Retentive.machines {engine : Engine} (retentive : engine.Retentive) :
    engine.machines.Pairwise fun newer older => older.Retains newer := by
  refine .cons (List.forall_mem_map.mpr retentive.latest) ?_
  rw [List.pairwise_map]
  exact retentive.earlier

namespace Session

variable {session after : Session}

/-! ## Steps under the policy -/

/-- What is removed under the policy is referred to by no other module, also once the actions
that it owned have run. -/
theorem spares_of_dependents {engine between : Engine} (recorded : engine.Recorded)
    {id : TransactionId} (none : (engine.dependents id).1 = []) {owner : AtExitOwner} {count : Nat}
    (ran : engine.emitPending.runOwned owner = .ok (count, between)) {module : ModuleId}
    {initialized : Bool} {symbols references : List String}
    (emitted : between.state? id = some (.emitted module initialized symbols references)) :
    between.machine.Spares module := by
  obtain ⟨continues, states⟩ := Engine.runOwned_keeps ran
  rw [Engine.state?_eq_find, states] at emitted
  have spares := Engine.dependents_eq_nil recorded.emitPending.recorded.wellFormed none emitted
  unfold Machine.Spares Machine.symbolsOf at spares ⊢
  rw [continues.modules, continues.module?]
  exact spares

/-- Used transactions are kept, and what live code refers to stays bound as it is. -/
structure Bound (session : Session) : Prop where
  policy : session.config.unloadPolicy = .rejectLiveDependents
  retentive : session.engine.Retentive

theorem bound_new (config : Config) (source : LibrarySource) (files : Files.FileTree)
    (policy : config.unloadPolicy = .rejectLiveDependents) : (new config source files).Bound :=
  ⟨policy, Engine.retentive_new config.limits source⟩

theorem Moves.bound (moves : session.Moves after) (sound : session.Sound) (bound : session.Bound) :
    after.Bound := by
  cases moves with
  | aside log compiler engine policy =>
    refine ⟨policy.trans bound.policy, ?_⟩
    rw [engine]
    exact bound.retentive
  | worked works succeeds => exact ⟨bound.policy, bound.retentive.worked works⟩
  | rejected compiled refused => exact ⟨bound.policy, bound.retentive⟩
  | committed compiled accepted own logged => exact ⟨bound.policy, bound.retentive.track _ _⟩
  | abandoned => exact ⟨bound.policy, bound.retentive⟩
  | unloaded logged spared ran =>
    obtain ⟨between, run, rfl⟩ := Engine.unload_course ran
    have running := (bound.retentive.works .generated).worked (Engine.runOwned_works run)
    exact ⟨bound.policy, running.dropCode fun _ _ _ _ emitted =>
      spares_of_dependents sound.engine (spared bound.policy) run emitted⟩

/-! ## Unloading -/

/-- The transaction that an operation is to unload. -/
def Operation.unloads? (operation : Operation) (session : Session) : Option TransactionId :=
  match operation with
  | .unload id => some id
  | .unloadLast => session.log.last?.map Transaction.id
  | _ => none

theorem unloads_of_perform {operation : Operation} {id : TransactionId} {answer : Answer}
    (asks : operation.unloads? session = some id)
    (ended : perform operation session = .ok (answer, after)) :
    ∃ unloading, answer = .unloading unloading ∧ UnloadEnds session id unloading after := by
  have unloads : Ends (perform operation) session fun answer after =>
      ∃ unloading, answer = .unloading unloading ∧ UnloadEnds session id unloading after := by
    cases operation with
    | unload own =>
      obtain rfl := Option.some.inj asks
      exact ends_map ((unloadTransaction_unloadEnds session own).mono
        fun unloading _ unloads => ⟨unloading, rfl, unloads⟩)
    | unloadLast =>
      obtain ⟨transaction, last, rfl⟩ := Option.map_eq_some_iff.mp asks
      apply ends_map
      unfold unloadLast
      apply ends_get_bind
      rw [last]
      exact (unloadTransaction_unloadEnds session transaction.id).mono
        fun unloading _ unloads => ⟨unloading, rfl, unloads⟩
    | _ => cases asks
  exact unloads answer after ended

/-- A removal runs what the transaction owns and drops its code and its record. -/
theorem UnloadEnds.exists_removed {id : TransactionId}
    (unloads : UnloadEnds session id .unloaded after) :
    (session.config.unloadPolicy = .rejectLiveDependents →
      (session.engine.dependents id).1 = []) ∧
    ∃ count between host,
      session.engine.emitPending.runOwned (.transaction id) = .ok (count, between) ∧
        after = { session.remove id (between.dropCode id) with
          engine := { between.dropCode id with host } } := by
  cases unloads with
  | removed logged spared ran =>
    obtain ⟨between, run, rfl⟩ := Engine.unload_course ran
    obtain ⟨_, told⟩ := exists_notify (session.remove id (between.dropCode id)) _
    exact ⟨spared, _, between, _, run, told⟩

theorem UnloadEnds.unlogged {id : TransactionId} (unloads : UnloadEnds session id .unloaded after) :
    after.log.contains id = false := by
  obtain ⟨-, count, between, host, -, rfl⟩ := unloads.exists_removed
  change (session.compiler.unload session.log id).2.2.contains id = false
  rw [Compiler.contains_unload, decide_eq_false (not_not.mpr rfl), Bool.false_and]

/-- Nothing has changed but that waiting code is generated. -/
structure OnlyGenerates (before after : Session) : Prop where
  same : after = { before with engine := before.engine.emitPending }
  log : after.log = before.log
  compiler : after.compiler = before.compiler
  host : after.engine.host = before.engine.host
  symbols : ∀ name address, before.engine.machine.resolve? name = some address →
    after.engine.machine.resolve? name = some address
  globals : ∀ name value, before.engine.machine.globalValue? name = some value →
    after.engine.machine.globalValue? name = some value

theorem onlyGenerates_emitPending (session : Session) :
    session.OnlyGenerates { session with engine := session.engine.emitPending } where
  same := rfl
  log := rfl
  compiler := rfl
  host := rfl
  symbols _ _ found := Machine.resolve?_of_isPrefix session.engine.emitPending_adds.1 found
  globals name value found := by
    obtain ⟨newer, same⟩ := session.engine.emitPending_adds.2
    unfold Machine.globalValue? Machine.GlobalStore.get? at found ⊢
    obtain ⟨entry, first, rfl⟩ := Option.map_eq_some_iff.mp found
    rw [← same, List.find?_append, first, Option.some_or, Option.map_some]

/-- What is left after a removal refers to nothing that was removed. -/
theorem UnloadEnds.spares {id : TransactionId} (unloads : UnloadEnds session id .unloaded after)
    (sound : session.Sound) (policy : session.config.unloadPolicy = .rejectLiveDependents)
    {module : ModuleId} {initialized : Bool} {symbols references : List String}
    (emitted : session.engine.emitPending.state? id =
      some (.emitted module initialized symbols references))
    {live : Module} (member : live ∈ after.engine.machine.modules) {name : String}
    (used : name ∈ live.unit.references) :
    name ∉ session.engine.emitPending.machine.symbolsOf module := by
  obtain ⟨spared, count, between, host, run, rfl⟩ := unloads.exists_removed
  obtain ⟨continues, states⟩ := Engine.runOwned_keeps run
  have still : between.state? id = some (.emitted module initialized symbols references) := by
    rw [Engine.state?_eq_find, states]
    exact emitted
  change live ∈ (between.dropCode id).machine.modules at member
  simp only [Engine.dropCode, Engine.note, still] at member
  rw [Machine.unload_modules, continues.modules] at member
  obtain ⟨stays, other⟩ := List.mem_filter.mp member
  have generated := sound.engine.emitPending.recorded
  exact Engine.dependents_eq_nil generated.wellFormed (spared policy) emitted live stays
    (of_decide_eq_true other) name used

/-- Under the policy that keeps used transactions, what a module refers to that is live at two
times of a run resolved at the second time as it did at the first. If an unload goes through,
no module that is live afterwards refers to a name that the removed one defined, and if it is
refused, nothing happens but that waiting code is generated. -/
theorem rejecting_used_transactions_leaves_nothing_dangling {config : Config}
    {source : LibrarySource} {files : Files.FileTree} {operations : List Operation}
    {answers : List Answer} {session : Session}
    (policy : config.unloadPolicy = .rejectLiveDependents)
    (performed : performAll operations (new config source files) = .ok (answers, session)) :
    (session.engine.machines.Pairwise fun newer older =>
      ∀ module ∈ older.modules, module ∈ newer.modules → ∀ name ∈ module.unit.references,
        ∀ address, older.resolve? name = some address → newer.resolve? name = some address) ∧
    ∀ (operation : Operation) (id : TransactionId) (answer : Answer) (after : Session),
      operation.unloads? session = some id → perform operation session = .ok (answer, after) →
      (answer = .unloading .unloaded → after.log.contains id = false ∧
        ∀ module initialized symbols references,
          session.engine.emitPending.state? id =
            some (.emitted module initialized symbols references) →
          ∀ live ∈ after.engine.machine.modules, ∀ name ∈ live.unit.references,
            name ∉ session.engine.emitPending.machine.symbolsOf module) ∧
      (∀ ids, answer = .unloading (.hasDependents ids) → session.OnlyGenerates after) := by
  have sound := performAll_ends operations (sound_new config source files) answers session performed
  obtain ⟨rejects, retentive⟩ : session.Bound :=
    holds_of_performAll Bound performed (bound_new config source files policy)
      fun sound moves bound => moves.bound sound bound
  refine ⟨retentive.machines.imp fun retains => retains.bound, ?_⟩
  intro operation id answer after asks ended
  obtain ⟨unloading, rfl, unloads⟩ := unloads_of_perform asks ended
  refine ⟨?_, ?_⟩
  · rintro ⟨⟩
    exact ⟨unloads.unlogged, fun _ _ _ _ emitted _ member _ used =>
      unloads.spares sound rejects emitted member used⟩
  · rintro ids ⟨⟩
    cases unloads with
    | refused logged policy used => exact session.onlyGenerates_emitPending

/-- A function that another calls is kept, and the one that calls it is removed once the input
that called that is gone. -/
theorem a_called_function_is_kept :
    let config := { Config.standard with unloadPolicy := .rejectLiveDependents }
    ∃ answers session kept after,
      config.unloadPolicy = .rejectLiveDependents ∧
      performAll [.submit .declare "int base() \x7b return 1; \x7d",
        .submit .declare "int user() \x7b return base() + 1; \x7d", .submit .evaluate "user()",
        .unloadLast] (new config .sharedObjects []) = .ok (answers, session) ∧
      perform (.unload ⟨0⟩) session = .ok (.unloading (.hasDependents [⟨1⟩]), kept) ∧
      session.OnlyGenerates kept ∧
      perform (.unload ⟨1⟩) session = .ok (.unloading .unloaded, after) ∧
      ∃ module, session.engine.emitPending.machine.symbolsOf module = ["user"] ∧
        ∀ live ∈ after.engine.machine.modules, "user" ∉ live.unit.references := by
  intro config
  have facts :
      ((performAll [.submit .declare "int base() \x7b return 1; \x7d",
        .submit .declare "int user() \x7b return base() + 1; \x7d", .submit .evaluate "user()",
        .unloadLast] (new config .sharedObjects [])).toOption.bind fun result =>
          (perform (.unload ⟨0⟩) result.2).toOption.bind fun keeping =>
            (perform (.unload ⟨1⟩) result.2).toOption.bind fun removing =>
              (result.2.engine.emitPending.state? ⟨1⟩).bind fun state =>
                state.module?.map fun module =>
                  decide (keeping.1 = .unloading (.hasDependents [⟨1⟩]) ∧
                    removing.1 = .unloading .unloaded ∧
                    result.2.engine.emitPending.machine.symbolsOf module = ["user"])) =
        some true := by decide +kernel
  obtain ⟨⟨answers, session⟩, performed, facts⟩ := Option.bind_eq_some_iff.mp facts
  obtain ⟨⟨_, kept⟩, keeps, facts⟩ := Option.bind_eq_some_iff.mp facts
  obtain ⟨⟨_, after⟩, removes, facts⟩ := Option.bind_eq_some_iff.mp facts
  obtain ⟨state, stands, facts⟩ := Option.bind_eq_some_iff.mp facts
  obtain ⟨module, own, facts⟩ := Option.map_eq_some_iff.mp facts
  obtain ⟨rfl, rfl, symbols⟩ := of_decide_eq_true facts
  have performed := ok_of_toOption performed
  have keeps := ok_of_toOption keeps
  have removes := ok_of_toOption removes
  obtain ⟨-, unloading⟩ :=
    rejecting_used_transactions_leaves_nothing_dangling (rfl : config.unloadPolicy = _) performed
  obtain ⟨-, refusal⟩ := unloading _ _ _ _ rfl keeps
  obtain ⟨removal, -⟩ := unloading _ _ _ _ rfl removes
  refine ⟨answers, session, kept, after, rfl, performed, keeps, refusal _ rfl, removes, module,
    symbols, ?_⟩
  intro live member used
  cases state with
  | emitted emitted initialized names references =>
    obtain rfl := Option.some.inj own
    have gone := (removal rfl).2 _ _ _ _ stands live member "user" used
    rw [symbols] at gone
    exact gone List.mem_cons_self
  | pending unit => cases own
  | excluded => cases own
  | failed error => cases own

end Session

end IncrementalC
