import IncrementalC.Proofs.Session.Performing

/-!
Contract: static initialization over the whole life of an interpreter.

Owns: what every journal says about initializers, entries, the states of code and the
order of initialization, whatever was asked of the interpreter.

Does not own: which names are missing at a time.
-/

namespace IncrementalC

/-- Static initialization is in order: what the journal says of it from the beginning. -/
structure InitializesInOrder (engine : Engine) : Prop where
  /-- The initializers of a transaction run in the order of their declarations, none of
  them twice. -/
  ascending : ∀ id, ((initializerRuns id engine.journal).map fun run =>
    run.declaration.number).Pairwise (· < ·)
  /-- Whatever runs at the address of an initializer is the run of an initializer of a
  transaction that counts as initialized since before. -/
  initializers : ∀ entry ∈ engine.journal, ∀ purpose owner origin address result,
    entry.activity = .ran purpose owner origin address result → address.kind = .initializer →
    ∃ id declaration symbols references,
      purpose = .initializer ∧ owner = .transaction id ∧ origin = some declaration ∧
      ⟨address, declaration⟩ ∈ entry.machine.initializersOf address.module ∧
      entry.state? id = some (.emitted address.module true symbols references)
  /-- An entry runs for the transaction that defines it, which counts as initialized. -/
  entries : ∀ entry ∈ engine.journal, ∀ name owner origin address result,
    entry.activity = .ran (.entry name) owner origin address result →
    ∃ id symbols references, owner = .transaction id ∧ name ∈ symbols ∧
      entry.state? id = some (.emitted address.module true symbols references)
  /-- States move one move at a time, from no states to those of the engine. -/
  moves : (engine.journal.map JournalEntry.states ++ [[]]).IsChain fun later earlier =>
    ∀ id, CodeMove (CodeStates.find earlier id) (CodeStates.find later id)
  latest : latestStates engine.journal = engine.states
  /-- Code that is gone never comes back. -/
  once : ∀ newer entry older id, engine.journal = newer ++ entry :: older →
    CodeStates.find (latestStates older) id = none → entry.state? id ≠ none →
    ∀ earlier ∈ older, earlier.state? id = none
  /-- When a transaction is initialized, every generated one with a smaller number counts
  as initialized or is blocked. -/
  settled : ∀ newer entry older id module symbols references,
    engine.journal = newer ++ entry :: older →
    CodeStates.find (latestStates older) id = some (.emitted module false symbols references) →
    entry.state? id = some (.emitted module true symbols references) →
    entry.EarlierSettled id

/-- What a name denotes is never an initializer. -/
theorem Machine.kind_of_resolve? {machine : Machine} {name : String} {address : Address}
    (found : machine.resolve? name = some address) : address.kind ≠ .initializer := by
  obtain ⟨module, -, here⟩ := Machine.exists_of_resolve? found
  rcases Module.address?_cases here with ⟨kind, -⟩ | ⟨kind, -⟩
  · rw [kind]
    simp
  · rw [kind]
    simp

theorem Engine.Recorded.initializesInOrder {engine : Engine} (recorded : engine.Recorded) :
    InitializesInOrder engine where
  ascending := recorded.inOrder.ascending_initializerRuns
  initializers := by
    intro entry member purpose owner origin address result activity kind
    obtain ⟨newer, older, place⟩ := List.append_of_mem member
    have justified := (recorded.inOrder.follows place).justified
    unfold JournalEntry.Justified at justified
    rw [activity] at justified
    cases purpose with
    | initializer =>
      obtain ⟨id, declaration, symbols, references, owned, origined, state, inPlace, -⟩ := justified
      have listed := inPlace.subset (List.mem_append_right _ (List.mem_singleton_self _))
      exact ⟨id, declaration, symbols, references, rfl, owned, origined, listed, state⟩
    | entry name =>
      obtain ⟨_, _, _, -, -, -, found, -⟩ := justified
      exact absurd kind (Machine.kind_of_resolve? found)
    | atExit =>
      have isFunction : address.kind = .function := justified
      rw [kind] at isFunction
      cases isFunction
    | request => exact justified.elim
  entries := by
    intro entry member name owner origin address result activity
    obtain ⟨newer, older, place⟩ := List.append_of_mem member
    have justified := (recorded.inOrder.follows place).justified
    unfold JournalEntry.Justified at justified
    rw [activity] at justified
    obtain ⟨id, symbols, references, owned, state, defined, -⟩ := justified
    exact ⟨id, symbols, references, owned, defined, state⟩
  moves := recorded.inOrder.isChain_moves
  latest := recorded.latest
  once := by
    intro newer entry older id place absent known earlier member
    exact recorded.inOrder.state_stays_gone place absent known member
  settled := by
    intro newer entry older id module symbols references place waits initialized
    have follows := recorded.inOrder.follows place
    have activity := follows.initializes id module symbols references waits initialized
    have justified := follows.justified
    unfold JournalEntry.Justified at justified
    rw [activity] at justified
    exact justified

namespace Session

/-- Whatever is asked of an interpreter, and in whatever order, its static initialization
is in order. -/
theorem initializes_in_order {config : Config} {source : LibrarySource} {files : Files.FileTree}
    {operations : List Operation} {answers : List Answer} {session : Session}
    (performed : performAll operations (new config source files) = .ok (answers, session)) :
    InitializesInOrder session.engine := by
  have sound := performAll_ends operations (sound_new config source files) answers session performed
  exact sound.engine.initializesInOrder

/-- Two transactions wait, the second behind the first, while a name is missing. Once it
is there their initializers run, in order and once. -/
theorem blocked_initializers_run_later :
    ∃ answers session,
      performAll
        [.submit .declare "int late(); int a = late(); int b = a + 1;",
          .submit .declare "int c = b + 1;", .submit .evaluate "1",
          .addFunction "late" (.host ⟨⟨0, "late"⟩, fun _ _ => 5⟩), .submit .evaluate "c",
          .submit .evaluate "c"]
        (new .standard .sharedObjects []) = .ok (answers, session) ∧
      InitializesInOrder session.engine ∧
      (initializerRuns ⟨0⟩ session.engine.journal).map
        (fun run => run.declaration.number) = [1, 2] ∧
      (initializerRuns ⟨1⟩ session.engine.journal).map
        (fun run => run.declaration.number) = [3] := by
  let operations : List Operation :=
    [.submit .declare "int late(); int a = late(); int b = a + 1;",
      .submit .declare "int c = b + 1;", .submit .evaluate "1",
      .addFunction "late" (.host ⟨⟨0, "late"⟩, fun _ _ => 5⟩), .submit .evaluate "c",
      .submit .evaluate "c"]
  have facts :
      (performAll operations (new .standard .sharedObjects [])).toOption.map (fun result =>
        ((initializerRuns ⟨0⟩ result.2.engine.journal).map (fun run => run.declaration.number),
          (initializerRuns ⟨1⟩ result.2.engine.journal).map fun run => run.declaration.number)) =
        some ([1, 2], [3]) := by decide +kernel
  cases performed : performAll operations (new .standard .sharedObjects []) with
  | error breakdown =>
    rw [performed] at facts
    cases facts
  | ok result =>
    rw [performed] at facts
    obtain ⟨first, second⟩ := Prod.mk.inj (Option.some.inj facts)
    exact ⟨result.1, result.2, rfl, initializes_in_order performed, first, second⟩

end Session

end IncrementalC
