import Mathlib.Data.List.Sort
import IncrementalC.Proofs.Session.Performing

/-!
Contract: the stores of an interpreter agree.

The table of declarations, the log, the states of code and the machine are changed by
different calls at different times. Between operations they tell the same story, whatever
the operations were and however they ended.

Owns: what the four stores say of each other after every operation.

Does not own: what an operation answers.
-/

namespace IncrementalC

instance : Std.Irrefl fun earlier later : TransactionId => earlier.number < later.number :=
  ⟨fun _ => Nat.lt_irrefl _⟩

instance : Std.Antisymm fun earlier later : TransactionId => earlier.number < later.number :=
  ⟨fun _ _ before after => absurd before (Nat.lt_asymm after)⟩

/-- The stores of an interpreter say the same of every transaction. -/
structure StoresAgree (session : Session) : Prop where
  /-- The engine has the code of the logged transactions. -/
  tracked : session.engine.states.map Prod.fst = session.log.ids
  committed : ∀ transaction ∈ session.log.entries, transaction.state = .committed
  /-- The log is what is left of all transactions that were ever committed, in the order of
  the commits. -/
  ordered : session.log.ids.Sublist (trackedIds session.engine.journal)
  /-- Every commit has a larger number than those before, also those that are gone. -/
  ascending : (trackedIds session.engine.journal).Pairwise fun earlier later =>
    earlier.number < later.number
  /-- The numbers that are still to be given out are larger than all that were committed. -/
  unused : ∀ id ∈ trackedIds session.engine.journal, id.number < session.log.nextNumber
  live : ∀ record ∈ session.compiler.checker.table.records,
    record.isLive = session.log.contains record.owner
  visible : ∀ record ∈ session.compiler.checker.table.records,
    record.isLive = true → record.visibility = .visible
  declared : ∀ name, session.compiler.isDeclared name = true ↔
    ∃ transaction ∈ session.log.entries, ∃ declaration ∈ transaction.declarations,
      session.compiler.checker.declarationName? declaration = some name
  /-- The live modules are those of the generated states, each of one state. -/
  modules : (session.engine.machine.modules.map Module.id).Perm
    (CodeStates.modules session.engine.states)
  apart : (CodeStates.modules session.engine.states).Nodup
  /-- What a state has noted of its module is so. -/
  cached : ∀ id module initialized symbols references,
    session.engine.state? id = some (.emitted module initialized symbols references) →
    session.engine.machine.isLive module = true ∧
      symbols = session.engine.machine.symbolsOf module ∧
      references = session.engine.machine.referencesOf module

/-! ## The states and the machine -/

namespace CodeStands

variable {machine : Machine} {states : CodeStates}

/-- The live modules are those of the generated states. -/
theorem perm_modules (stands : CodeStands machine states) :
    (machine.modules.map Module.id).Perm states.modules := by
  rw [List.perm_ext_iff_of_nodup stands.machine.distinct stands.states.apart]
  intro id
  constructor
  · intro live
    obtain ⟨module, member, rfl⟩ := List.mem_map.mp live
    exact stands.owned module member
  · intro known
    obtain ⟨_, _, _, _, member⟩ := CodeStates.mem_modules_iff.mp known
    obtain ⟨unit, live, -⟩ := stands.states.holds _ member
    exact List.mem_map.mpr ⟨_, Machine.mem_of_module? live, rfl⟩

theorem cached (stands : CodeStands machine states) {id : TransactionId} {module : ModuleId}
    {initialized : Bool} {symbols references : List String}
    (emitted : CodeStates.find states id =
      some (.emitted module initialized symbols references)) :
    machine.isLive module = true ∧ symbols = machine.symbolsOf module ∧
      references = machine.referencesOf module := by
  obtain ⟨unit, live, defined, used⟩ := stands.states.holds _ (CodeStates.mem_of_find emitted)
  unfold Machine.isLive Machine.symbolsOf Machine.referencesOf
  rw [live]
  exact ⟨rfl, defined, used⟩

end CodeStands

namespace Session

variable {session : Session}

/-! ## The states and the log -/

theorem Sound.mem_states_iff (sound : session.Sound) (id : TransactionId) :
    id ∈ session.engine.states.map Prod.fst ↔ id ∈ session.log.ids := by
  have known : id ∈ session.engine.states.map Prod.fst ↔ session.engine.state? id ≠ none := by
    rw [Engine.state?_eq_find, Ne, CodeStates.find_eq_none_iff]
    simp
  have logged : id ∈ session.log.ids ↔ session.log.contains id = true := by
    rw [TransactionLog.contains_iff]
    exact List.mem_map
  rw [known, logged, Ne, sound.agrees id, Bool.not_eq_false]

theorem Sound.storesAgree (sound : session.Sound) : StoresAgree session := by
  have ascending := sound.engine.inOrder.ascending_trackedIds
  have statesAscend : (session.engine.states.map Prod.fst).Pairwise fun earlier later =>
      earlier.number < later.number :=
    List.pairwise_map.mpr sound.engine.wellFormed.states.ascending
  have idsAscend : session.log.ids.Pairwise fun earlier later => earlier.number < later.number :=
    List.pairwise_map.mpr sound.compiler.logged.ascending
  have everTracked : session.log.ids ⊆ trackedIds session.engine.journal := by
    intro id logged
    have known := (sound.mem_states_iff id).mpr logged
    rw [mem_trackedIds_iff]
    apply sound.engine.tracked
    obtain ⟨entry, member, rfl⟩ := List.mem_map.mp known
    rw [Engine.state?_eq_find,
      CodeStates.find_of_mem sound.engine.wellFormed.states.ascending member]
    nofun
  exact
    { tracked := statesAscend.eq_of_mem_iff idsAscend sound.mem_states_iff
      committed := sound.compiler.logged.committed
      ordered := List.sublist_of_subperm_of_pairwise
        (List.subperm_of_subset idsAscend.nodup everTracked) idsAscend ascending
      ascending
      unused := fun id known => (sound.tracked id (mem_trackedIds_iff.mp known)).1
      live := fun record member => sound.compiler.accounted.isLive_eq member
      visible := fun record member => sound.compiler.accounted.visible member
      declared := by
        intro name
        have found := sound.compiler.accounted.isSome_lookup_iff sound.compiler.checker.table name
        unfold Compiler.isDeclared Checker.lookup
        rw [Option.isSome_map]
        exact found
      modules := sound.engine.wellFormed.perm_modules
      apart := sound.engine.wellFormed.states.apart
      cached := fun _ _ _ _ _ emitted => sound.engine.wellFormed.cached emitted }

/-- Whatever is asked of an interpreter, and in whatever order, its stores agree after each
operation. -/
theorem stores_agree {config : Config} {source : LibrarySource} {files : Files.FileTree}
    {operations : List Operation} {answers : List Answer} {session : Session}
    (performed : performAll operations (new config source files) = .ok (answers, session)) :
    StoresAgree session :=
  (performAll_ends operations (sound_new config source files) answers session
    performed).storesAgree

/-- One transaction fails, one is cancelled and one is unloaded. What is left is known to all
stores, and nothing else is. -/
theorem stores_agree_after_unloading :
    ∃ answers session,
      performAll
        [.submit .declare "int a = 1;", .submit .declare "int a;",
          .submit .declare "int f() { return a; }", .submit .declare "int g(",
          .cancelContinuation, .submit .evaluate "f()", .unload ⟨0⟩]
        (new .standard .sharedObjects []) = .ok (answers, session) ∧
      StoresAgree session ∧ session.log.ids = [⟨2⟩, ⟨4⟩] ∧
      trackedIds session.engine.journal = [⟨0⟩, ⟨2⟩, ⟨4⟩] ∧
      session.compiler.isDeclared "a" = false ∧ session.compiler.isDeclared "f" = true := by
  let operations : List Operation :=
    [.submit .declare "int a = 1;", .submit .declare "int a;",
      .submit .declare "int f() { return a; }", .submit .declare "int g(",
      .cancelContinuation, .submit .evaluate "f()", .unload ⟨0⟩]
  have facts :
      (performAll operations (new .standard .sharedObjects [])).toOption.map (fun result =>
        (result.2.log.ids, trackedIds result.2.engine.journal,
          result.2.compiler.isDeclared "a", result.2.compiler.isDeclared "f")) =
        some ([⟨2⟩, ⟨4⟩], [⟨0⟩, ⟨2⟩, ⟨4⟩], false, true) := by decide +kernel
  obtain ⟨⟨answers, session⟩, performed, facts⟩ := Option.map_eq_some_iff.mp facts
  have performed := ok_of_toOption performed
  simp only [Prod.mk.injEq] at facts
  exact ⟨answers, session, performed, stores_agree performed, facts⟩

end Session

end IncrementalC
