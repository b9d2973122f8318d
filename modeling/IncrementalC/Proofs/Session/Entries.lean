import IncrementalC.Proofs.Session.Performing

/-!
Contract: what stands uninitialized while an entry runs.

A transaction waits as long as it uses names of earlier ones that wait. What it uses of
later ones does not hold it back: a function whose prototype came first may be defined by
a transaction that waits, and entries that call it run into variables without a value.

Owns: which uninitialized code an entry can reach, and through what.

Does not own: whether the entry uses what it reaches.
-/

namespace IncrementalC

/-! ## Who refers to a name -/

namespace CodeStands

variable {machine : Machine} {states : CodeStates} {id other : TransactionId}
  {module otherModule : ModuleId} {initialized : Bool}
  {symbols references otherSymbols otherReferences : List String} {name : String}
  {address : Address}

/-- Names that code uses are defined or referred to by the transaction of the code. -/
theorem mem_references (stands : CodeStands machine states)
    (emitted : CodeStates.find states id =
      some (.emitted address.module initialized symbols references))
    (used : name ∈ machine.referencesAt address) (foreign : name ∉ symbols) :
    name ∈ references := by
  obtain ⟨unit, live, rfl, rfl⟩ := stands.states.holds _ (CodeStates.mem_of_find emitted)
  unfold Machine.referencesAt at used
  rw [live] at used
  unfold CodeUnit.references
  rw [NameSet.mem_ofNames, List.mem_filter, List.mem_append, List.mem_flatMap, List.mem_flatMap]
  refine ⟨?_, decide_eq_true foreign⟩
  cases kind : address.kind with
  | global =>
    rw [kind] at used
    exact absurd used List.not_mem_nil
  | function =>
    simp only [kind] at used
    cases at? : unit.functions[address.index]? with
    | none =>
      rw [at?] at used
      exact absurd used List.not_mem_nil
    | some function =>
      rw [at?] at used
      exact .inl ⟨function, List.mem_of_getElem? at?, used⟩
  | initializer =>
    simp only [kind] at used
    cases at? : unit.initializers[address.index]? with
    | none =>
      rw [at?] at used
      exact absurd used List.not_mem_nil
    | some initializer =>
      rw [at?] at used
      exact .inr ⟨initializer, List.mem_of_getElem? at?, used⟩

/-- A name that an initialized transaction uses and another defines that is not initialized
is referred to forwards. -/
theorem forward (stands : CodeStands machine states)
    (user : CodeStates.find states id =
      some (.emitted address.module true symbols references))
    (used : name ∈ machine.referencesAt address)
    (waits : CodeStates.find states other =
      some (.emitted otherModule false otherSymbols otherReferences))
    (defined : name ∈ otherSymbols) : name ∈ references ∧ id.number < other.number := by
  have foreign : name ∉ symbols := by
    intro own
    obtain ⟨unit, live, rfl, -⟩ := stands.states.holds _ (CodeStates.mem_of_find user)
    obtain ⟨otherUnit, otherLive, rfl, -⟩ := stands.states.holds _ (CodeStates.mem_of_find waits)
    have same := stands.machine.module_of_name (Machine.mem_of_module? live)
      (Machine.mem_of_module? otherLive) own defined
    obtain ⟨sameModule, -⟩ := Module.mk.inj same
    have one := stands.states.id_of_module (CodeStates.mem_of_find user)
      (CodeStates.mem_of_find waits) rfl (congrArg some sameModule.symm)
    cases one
  have referred := stands.mem_references user used foreign
  refine ⟨referred, ?_⟩
  by_contra notBefore
  have differs : id.number ≠ other.number := by
    intro same
    obtain rfl : id = other := congrArg TransactionId.mk same
    rw [user] at waits
    cases waits
  exact stands.precedent.apart user waits (by omega) name referred defined

/-- A name that a generated transaction defines denotes something in its module. -/
theorem exists_place (stands : CodeStands machine states)
    (emitted : CodeStates.find states id =
      some (.emitted module initialized symbols references)) (defined : name ∈ symbols) :
    ∃ place, machine.resolve? name = some place ∧ place.module = module := by
  obtain ⟨unit, found, rfl, -⟩ := stands.states.holds _ (CodeStates.mem_of_find emitted)
  have live := Machine.mem_of_module? found
  obtain ⟨place, here⟩ := Option.isSome_iff_exists.mp
    ((Module.isSome_address?_iff ⟨module, unit⟩ name).mpr defined)
  refine ⟨place, ?_, Module.address?_module here⟩
  rw [stands.machine.resolve?_eq live defined, here]

end CodeStands

/-! ## What an entry reaches -/

namespace JournalEntry

/-- The code reaches a name that an initialized transaction refers to and a later one
defines, which is blocked. -/
structure ForwardReference (entry : JournalEntry) (roots : List Address)
    (user later : TransactionId) (name : String) : Prop where
  reached : entry.machine.Reaches roots name
  before : user.number < later.number
  refers : ∃ module symbols references,
    entry.state? user = some (.emitted module true symbols references) ∧ name ∈ references
  waits : ∃ module symbols references,
    entry.state? later = some (.emitted module false symbols references) ∧ name ∈ symbols
  blocked : Blocked entry.machine entry.states entry.resolver later

variable {entry : JournalEntry} {address : Address} {owner : TransactionId}
  {symbols references : List String} {name : String}

/-- Code of an initialized transaction reaches what waits through a forward reference. -/
theorem forwardReference_of_reaches (stands : CodeStands entry.machine entry.states)
    (waiting : entry.WaitingBlocked)
    (own : entry.state? owner = some (.emitted address.module true symbols references))
    (reached : entry.machine.Reaches [address] name) {later : TransactionId} {module : ModuleId}
    {laterSymbols laterReferences : List String}
    (waits : entry.state? later = some (.emitted module false laterSymbols laterReferences))
    (defined : name ∈ laterSymbols) :
    ∃ user later used, entry.ForwardReference [address] user later used := by
  induction reached generalizing later module laterSymbols laterReferences with
  | @uses root name start used =>
    obtain rfl := List.mem_singleton.mp start
    obtain ⟨referred, before⟩ := stands.forward own used waits defined
    exact ⟨owner, later, name, .uses start used, before, ⟨_, _, _, own, referred⟩,
      ⟨_, _, _, waits, defined⟩, waiting _ _ _ _ waits⟩
  | @through between name place reached found used inductionHypothesis =>
    obtain ⟨user, initialized, _, _, state, definesBetween⟩ := stands.definer found
    cases initialized with
    | false => exact inductionHypothesis state definesBetween
    | true =>
      obtain ⟨referred, before⟩ := stands.forward state used waits defined
      exact ⟨user, later, name, .through reached found used, before, ⟨_, _, _, state, referred⟩,
        ⟨_, _, _, waits, defined⟩, waiting _ _ _ _ waits⟩

end JournalEntry

namespace Session

/-- Whatever an entry reaches belongs to a generated transaction that counts as initialized or
is blocked. It reaches code of the second kind exactly if it reaches a forward reference. -/
theorem entries_reach_blocked_code_through_forward_references {config : Config}
    {source : LibrarySource} {files : Files.FileTree} {operations : List Operation}
    {answers : List Answer} {session : Session}
    (performed : performAll operations (new config source files) = .ok (answers, session))
    {entry : JournalEntry} (member : entry ∈ session.engine.journal) {name : String}
    {owner : AtExitOwner} {origin : Option DeclarationId} {address : Address}
    {result : Except Fault Value}
    (ran : entry.activity = .ran (.entry name) owner origin address result) :
    (∀ symbol place, entry.machine.Reaches [address] symbol →
      entry.machine.resolve? symbol = some place →
      ∃ id initialized symbols references,
        entry.state? id = some (.emitted place.module initialized symbols references) ∧
          symbol ∈ symbols ∧
          (initialized = true ∨ Blocked entry.machine entry.states entry.resolver id)) ∧
      ((∃ symbol place id symbols references, entry.machine.Reaches [address] symbol ∧
          entry.machine.resolve? symbol = some place ∧
          entry.state? id = some (.emitted place.module false symbols references)) ↔
        ∃ user later used, entry.ForwardReference [address] user later used) := by
  have sound := performAll_ends operations (sound_new config source files) answers session performed
  obtain ⟨newer, older, place⟩ := List.append_of_mem member
  have follows := sound.engine.inOrder.follows place
  have stands := follows.toCodeStands
  have waiting := follows.waiting name owner origin address result ran
  have justified := follows.justified
  unfold JournalEntry.Justified at justified
  rw [ran] at justified
  obtain ⟨user, _, _, -, own, -⟩ := justified
  refine ⟨?_, ?_, ?_⟩
  · intro symbol place _ found
    obtain ⟨id, initialized, symbols, references, state, defined⟩ := stands.definer found
    refine ⟨id, initialized, symbols, references, state, defined, ?_⟩
    cases initialized with
    | true => exact .inl rfl
    | false => exact .inr (waiting id _ _ _ state)
  · rintro ⟨symbol, place, id, symbols, references, reached, found, waits⟩
    obtain ⟨definer, initialized, _, _, state, defined⟩ := stands.definer found
    -- The module of the name belongs to one transaction only.
    have one := stands.states.id_of_module (CodeStates.mem_of_find waits)
      (CodeStates.mem_of_find state) rfl rfl
    cases one
    exact JournalEntry.forwardReference_of_reaches stands waiting own reached waits defined
  · rintro ⟨user, later, used, reached, -, -, ⟨module, symbols, references, waits, defined⟩, -⟩
    obtain ⟨place, found, rfl⟩ := stands.exists_place waits defined
    exact ⟨used, place, later, symbols, references, reached, found, waits⟩

/-- Where an entry ran, and the value that it yielded. -/
def entryRun? : Activity → Option (Address × Value)
  | .ran (.entry _) _ _ address (.ok value) => some (address, value)
  | _ => none

/-- The names that code defines which is not initialized. -/
def waitingSymbols? : CodeState → Option (List String)
  | .emitted _ false symbols _ => some symbols
  | _ => none

/-- A function is called through an earlier prototype. The transaction that defines it waits
for `late`, and what calls the function reads a variable of that transaction as zero. -/
theorem reading_a_waiting_variable_yields_zero :
    ∃ answers session entry name owner origin address,
      performAll
        [.submit .declare "int get(); int use() { return get(); }",
          .submit .declare "int late(); int g = late(); int get() { return g; }",
          .submit .evaluate "use()"]
        (new .standard .sharedObjects []) = .ok (answers, session) ∧
      entry ∈ session.engine.journal ∧
      entry.activity = .ran (.entry name) owner origin address (.ok (.int 0)) ∧
      entry.machine.Reaches [address] "g" ∧
      (∃ module symbols references,
        entry.state? ⟨1⟩ = some (.emitted module false symbols references) ∧ "g" ∈ symbols) ∧
      ∃ user later used, entry.ForwardReference [address] user later used := by
  let operations : List Operation :=
    [.submit .declare "int get(); int use() { return get(); }",
      .submit .declare "int late(); int g = late(); int get() { return g; }",
      .submit .evaluate "use()"]
  have facts :
      ((performAll operations (new .standard .sharedObjects [])).toOption.bind fun result =>
        result.2.engine.journal.head?.bind fun entry =>
          (entryRun? entry.activity).bind fun run =>
            (entry.machine.resolve? "use").bind fun caller =>
              (entry.machine.resolve? "get").bind fun callee =>
                (entry.machine.resolve? "g").bind fun place =>
                  (entry.state? ⟨1⟩).bind fun state =>
                    (waitingSymbols? state).map fun symbols => decide (run.2 = .int 0 ∧
                      "use" ∈ entry.machine.referencesAt run.1 ∧
                      "get" ∈ entry.machine.referencesAt caller ∧
                      "g" ∈ entry.machine.referencesAt callee ∧
                      state.module? = some place.module ∧ symbols = ["g", "get"])) =
        some true := by decide +kernel
  obtain ⟨⟨answers, session⟩, performed, facts⟩ := Option.bind_eq_some_iff.mp facts
  obtain ⟨entry, newest, facts⟩ := Option.bind_eq_some_iff.mp facts
  obtain ⟨⟨address, value⟩, run, facts⟩ := Option.bind_eq_some_iff.mp facts
  obtain ⟨caller, callerFound, facts⟩ := Option.bind_eq_some_iff.mp facts
  obtain ⟨callee, calleeFound, facts⟩ := Option.bind_eq_some_iff.mp facts
  obtain ⟨place, placeFound, facts⟩ := Option.bind_eq_some_iff.mp facts
  obtain ⟨state, stateFound, facts⟩ := Option.bind_eq_some_iff.mp facts
  obtain ⟨symbols, waits, facts⟩ := Option.map_eq_some_iff.mp facts
  obtain ⟨rfl, usesCaller, usesCallee, usesVariable, own, rfl⟩ := of_decide_eq_true facts
  have performed := ok_of_toOption performed
  have member : entry ∈ session.engine.journal := List.mem_of_head? newest
  have reached : entry.machine.Reaches [address] "g" :=
    .through (.through (.uses (List.mem_singleton_self _) usesCaller) callerFound usesCallee)
      calleeFound usesVariable
  unfold entryRun? at run
  split at run
  · next name owner origin address value activity =>
    cases run
    unfold waitingSymbols? at waits
    split at waits
    · next module symbols references =>
      cases waits
      obtain rfl := Option.some.inj own
      obtain ⟨-, exactly⟩ :=
        entries_reach_blocked_code_through_forward_references performed member activity
      exact ⟨answers, session, entry, name, owner, origin, address, performed, member, activity,
        reached, ⟨_, _, _, stateFound, by decide⟩,
        exactly.mp ⟨"g", place, ⟨1⟩, _, _, reached, placeFound, stateFound⟩⟩
    · cases waits
  · cases run

end Session

end IncrementalC
