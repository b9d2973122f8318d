import IncrementalC.Proofs.Session.Performing

/-!
Contract: what the check for missing names before a run is worth.

The check asks whether a name is provided, not whether what it denotes fits its use. A
name can be provided and not fit: the variable of an unloaded transaction whose name is
a function now, or a declared function that only a native one stands for.

Owns: what names running code can lack although they were checked.

Does not own: which names are searched for.
-/

namespace IncrementalC.Session

/-- Before an initializer or an entry runs, every name that its code reaches is provided.
The run fails for lack of a name only at a use that the code reaches and that does not
fit, and such a use always fails when it is made. -/
theorem checked_runs_fail_at_unfit_uses {config : Config} {source : LibrarySource}
    {files : Files.FileTree} {operations : List Operation} {answers : List Answer}
    {session : Session}
    (performed : performAll operations (new config source files) = .ok (answers, session))
    {entry : JournalEntry} (member : entry ∈ session.engine.journal) {purpose : Purpose}
    {owner : AtExitOwner} {origin : Option DeclarationId} {address : Address}
    {result : Except Fault Value} (ran : entry.activity = .ran purpose owner origin address result)
    (checked : purpose = .initializer ∨ ∃ name, purpose = .entry name) :
    (∀ name, entry.machine.Reaches [address] name → Provides entry.machine entry.resolver name) ∧
      (∀ missing, result = .error (.unresolved missing) →
        ∃ use, entry.machine.Makes [address] use ∧
          use.FailsFor entry.machine entry.resolver missing) ∧
      ∀ (use : Code.Use) (values : List Int64) (missing : String) (host : HostState)
        (state : Machine.State HostState), host.resolver = entry.resolver →
        RunsOn entry.machine host state →
        (∀ name, use = .call name → entry.machine.function? name = none) →
        (Machine.FailsFor (entry.machine.make (hostServices owner origin) use values) missing
            state ↔
          use.FailsFor entry.machine entry.resolver missing) := by
  have sound := performAll_ends operations (sound_new config source files) answers session performed
  obtain ⟨newer, older, place⟩ := List.append_of_mem member
  have follows := sound.engine.inOrder.follows place
  have justified := follows.justified
  unfold JournalEntry.Justified at justified
  rw [ran] at justified
  have passed : entry.Checked address result := by
    rcases checked with rfl | ⟨name, rfl⟩
    · obtain ⟨_, _, _, _, -, -, -, -, passed⟩ := justified
      exact passed
    · obtain ⟨_, _, _, -, -, -, -, passed⟩ := justified
      exact passed
  refine ⟨passed.provided, passed.failing, ?_⟩
  intro use values missing host state same runsOn own
  rw [← same]
  exact Machine.make_failsFor_iff follows.machine runsOn own values

/-- The name for lack of which an entry failed. -/
def entryMissing? : Activity → Option String
  | .ran (.entry _) _ _ _ (.error (.unresolved missing)) => some missing
  | _ => none

/-- A variable goes away, and a function takes its name. What reads the variable runs,
since the name is provided, and fails. -/
theorem reading_a_rebound_name_fails :
    ∃ answers session entry name owner origin address,
      performAll
        [.submit .declare "int g = 1;", .submit .declare "int f() { return g; }",
          .submit .evaluate "f()", .unload ⟨0⟩, .submit .declare "int g() { return 7; }",
          .submit .evaluate "f()"]
        (new .standard .sharedObjects []) = .ok (answers, session) ∧
      entry ∈ session.engine.journal ∧
      entry.activity = .ran (.entry name) owner origin address (.error (.unresolved "g")) ∧
      ∃ use, entry.machine.Makes [address] use ∧
        use.FailsFor entry.machine entry.resolver "g" := by
  let operations : List Operation :=
    [.submit .declare "int g = 1;", .submit .declare "int f() { return g; }",
      .submit .evaluate "f()", .unload ⟨0⟩, .submit .declare "int g() { return 7; }",
      .submit .evaluate "f()"]
  have facts :
      ((performAll operations (new .standard .sharedObjects [])).toOption.bind fun result =>
        result.2.engine.journal.head?.bind fun entry => entryMissing? entry.activity) =
          some "g" := by decide +kernel
  cases performed : performAll operations (new .standard .sharedObjects []) with
  | error breakdown =>
    rw [performed] at facts
    cases facts
  | ok result =>
    rw [performed] at facts
    obtain ⟨_, ⟨⟩, facts⟩ := Option.bind_eq_some_iff.mp facts
    obtain ⟨entry, newest, failed⟩ := Option.bind_eq_some_iff.mp facts
    have member : entry ∈ result.2.engine.journal := List.mem_of_head? newest
    unfold entryMissing? at failed
    split at failed
    · next name owner origin address missing activity =>
      obtain rfl := Option.some.inj failed
      obtain ⟨-, failing, -⟩ :=
        checked_runs_fail_at_unfit_uses performed member activity (.inr ⟨name, rfl⟩)
      exact ⟨result.1, result.2, entry, name, owner, origin, address, rfl, member, activity,
        failing _ rfl⟩
    · cases failed

end IncrementalC.Session
