import IncrementalC.Proofs.Engine.AtExit

/-!
Contract: at-exit actions are conserved and handed out newest first.

Operations are performed one after the other. Each has a history, and all of them
together balance: what was registered is what was handed out and what is pending.

Owns: the operations of an engine, the histories of several of them, and that no
registration is lost or run twice.

Does not own: which function an action calls.
-/

namespace IncrementalC.Engine

open AtExitHistory

/-! ## Operations -/

/-- What can be asked of an engine. -/
inductive Operation where
  | track (transaction : Transaction) (unit : CodeUnit)
  | emitAndRun (log : TransactionLog) (id : TransactionId) (entry : Option String)
  | runCode (owner : AtExitOwner) (origin : Option DeclarationId) (address : Address)
      (arguments : List Value)
  | locate (name : String)
  | dependents (id : TransactionId)
  | unload (id : TransactionId)
  | loadLibrary (files : Files.FileTree) (name : String) (permanent : Bool)
      (searchPaths : List String)
  | unloadLibrary (name : String)
  | runStaticDestructors
  | addFunction (name : String) (function : NativeFunction)
  | setCreator (creator : FunctionCreator)
  | provideLibrary (name : String) (library : Library)

/-- Does what is asked. -/
def perform (engine : Engine) : Operation → Except Breakdown Engine
  | .track transaction unit => .ok (engine.track transaction unit)
  | .emitAndRun log id entry => Prod.snd <$> engine.emitAndRun log id entry
  | .runCode owner origin address arguments =>
    Prod.snd <$> engine.runCode owner origin address arguments
  | .locate name => .ok (engine.locate name).2
  | .dependents id => .ok (engine.dependents id).2
  | .unload id => Prod.snd <$> engine.unload id
  | .loadLibrary files name permanent searchPaths =>
    .ok (engine.loadLibrary files name permanent searchPaths).2
  | .unloadLibrary name => Prod.snd <$> engine.unloadLibrary name
  | .runStaticDestructors => Prod.snd <$> engine.runStaticDestructors
  | .addFunction name function => .ok (engine.addFunction name function)
  | .setCreator creator => .ok (engine.setCreator creator)
  | .provideLibrary name library => .ok (engine.provideLibrary name library)

/-- The owner that goes away with an operation; all do when everything is destructed. -/
def ending (engine : Engine) : Operation → Option (Option AtExitOwner)
  | .unload id => some (some (.transaction id))
  | .unloadLibrary name =>
    match engine.host.resolver.findLibrary? name with
    | none => none
    | some (canonical, library) =>
      if library.permanent then none else some (some (.library canonical))
  | .runStaticDestructors => some none
  | _ => none

section

variable {before between after : Engine}

theorem unloadLibrary_does {name : String} {result : Unloading}
    (ran : before.unloadLibrary name = .ok (result, after)) :
    ∃ deeds, before.Does deeds after ∧ Serves (before.ending (.unloadLibrary name)) deeds := by
  cases unloadLibrary_course ran with
  | unknown absent =>
    simp only [ending, absent]
    exact Registers.refl _
  | permanent found permanent =>
    simp only [ending, found, if_pos permanent]
    exact Registers.refl _
  | closed found closable run =>
    simp only [ending, found, if_neg (Bool.eq_false_iff.mp closable)]
    obtain ⟨meanwhile, retires⟩ := runOwned_retires run
    exact ⟨_, Retires.does (retires.quietly rfl rfl (.refl _)), retires.serves⟩

theorem ok_of_map {α β : Type} {ended : Except Breakdown α} {view : α → β} {result : β}
    (mapped : view <$> ended = .ok result) : ∃ value, ended = .ok value ∧ view value = result := by
  cases ended with
  | error breakdown => cases mapped
  | ok value => exact ⟨value, rfl, Except.ok.inj mapped⟩

theorem ok_of_any {ε α : Type} {ended : Except ε α} {holds : α → Bool}
    (facts : ended.toOption.any holds = true) :
    ∃ result, ended = .ok result ∧ holds result = true := by
  cases ended with
  | error _ => cases facts
  | ok result => exact ⟨result, rfl, facts⟩

/-- Every operation has a history: it hands out what is due for the owner that goes away
with it, and does nothing else with at-exit actions than registering some. -/
theorem perform_does {operation : Operation} (performed : before.perform operation = .ok after) :
    ∃ deeds, before.Does deeds after ∧ Serves (before.ending operation) deeds := by
  cases operation with
  | track transaction unit =>
    cases performed
    exact Registers.quiet rfl rfl (.refl _)
  | emitAndRun log id entry =>
    obtain ⟨⟨execution, _⟩, ran, rfl⟩ := ok_of_map performed
    exact emitAndRun_registers ran
  | runCode owner origin address arguments =>
    obtain ⟨⟨result, _⟩, ran, rfl⟩ := ok_of_map performed
    exact runCode_registers ran
  | locate name =>
    cases performed
    exact before.locate_registers name
  | dependents id =>
    cases performed
    exact before.dependents_registers id
  | unload id =>
    obtain ⟨⟨count, _⟩, ran, rfl⟩ := ok_of_map performed
    obtain ⟨meanwhile, retires⟩ := unload_retires ran
    exact ⟨_, retires.does, retires.serves⟩
  | loadLibrary files name permanent searchPaths =>
    cases performed
    exact before.loadLibrary_registers files name permanent searchPaths
  | unloadLibrary name =>
    obtain ⟨⟨result, _⟩, ran, rfl⟩ := ok_of_map performed
    exact unloadLibrary_does ran
  | runStaticDestructors =>
    obtain ⟨⟨count, _⟩, ran, rfl⟩ := ok_of_map performed
    obtain ⟨meanwhile, retires⟩ := runStaticDestructors_retires ran
    exact ⟨_, retires.does, retires.serves⟩
  | addFunction name function =>
    cases performed
    exact Registers.quiet rfl rfl (.refl _)
  | setCreator creator =>
    cases performed
    exact Registers.quiet rfl rfl (.refl _)
  | provideLibrary name library =>
    cases performed
    exact Registers.quiet rfl rfl (.refl _)

end

/-! ## Conservation -/

/-- Operations are performed one after the other, with this history. -/
inductive Unfolds : Engine → List Operation → AtExitHistory → Engine → Prop where
  | nil (engine : Engine) : Unfolds engine [] [] engine
  | cons {before between after : Engine} {operation : Operation} {rest : List Operation}
      {deeds history : AtExitHistory} (performed : before.perform operation = .ok between)
      (does : before.Does deeds between) (serves : Serves (before.ending operation) deeds)
      (unfolds : Unfolds between rest history after) :
      Unfolds before (operation :: rest) (history ++ deeds) after

theorem exists_unfolds {before after : Engine} {operations : List Operation}
    (performed : operations.foldlM perform before = .ok after) :
    ∃ history, before.Unfolds operations history after := by
  induction operations generalizing before with
  | nil =>
    cases performed
    exact ⟨[], .nil _⟩
  | cons operation rest inductionHypothesis =>
    rw [List.foldlM_cons] at performed
    cases step : before.perform operation with
    | error breakdown =>
      rw [step] at performed
      cases performed
    | ok between =>
      rw [step] at performed
      obtain ⟨deeds, does, serves⟩ := perform_does step
      obtain ⟨history, unfolds⟩ := inductionHypothesis performed
      exact ⟨history ++ deeds, .cons step does serves unfolds⟩

theorem Unfolds.accounts {before after : Engine} {operations : List Operation}
    {history earlier : AtExitHistory} (unfolds : before.Unfolds operations history after)
    (told : before.host.atExit = (outstanding earlier).map Prod.fst)
    (settled : HandsOutWhatIsDue earlier) :
    after.host.atExit = (outstanding (history ++ earlier)).map Prod.fst ∧
      HandsOutWhatIsDue (history ++ earlier) := by
  induction unfolds generalizing earlier with
  | nil engine => exact ⟨told, settled⟩
  | cons performed does serves rest inductionHypothesis =>
    obtain ⟨toldBetween, settledBetween⟩ := does.accounts told settled
    rw [List.append_assoc]
    exact inductionHypothesis toldBetween settledBetween

/-- Operations that start without registered actions have a history in which each
hands out what is due when its owner goes away, and every such history balances. -/
theorem at_exit_actions_are_conserved {before after : Engine} {operations : List Operation}
    (empty : before.host.atExit = [])
    (performed : operations.foldlM perform before = .ok after) :
    (∃ history, before.Unfolds operations history after) ∧
      ∀ history, before.Unfolds operations history after → Balances history after.host.atExit := by
  refine ⟨exists_unfolds performed, ?_⟩
  intro history unfolds
  have told : before.host.atExit = (outstanding []).map Prod.fst := empty
  obtain ⟨pending, handedOut⟩ := unfolds.accounts told handsOutWhatIsDue_nil
  rw [List.append_nil] at pending handedOut
  exact balances pending handedOut

/-- The code of `int f(int n) { if (n) atexit(f, n - 1); }` and of a function that registers
`f` with 1. -/
def countdown : CodeUnit where
  transaction := some ⟨0⟩
  functions :=
    [⟨"f", ⟨0⟩, 1, 1, true,
      [.choose (.slot 0)
        [.evaluate (.atExit "f" (.binary .subtract (.slot 0) (.integer 1)))] []]⟩,
      ⟨"start", ⟨1⟩, 0, 0, true, [.evaluate (.atExit "f" (.integer 1))]⟩]
  globals := []
  initializers := []

/-- The transaction that brings this code. -/
def countdownTransaction : Transaction :=
  { Transaction.new ⟨0⟩ .declaration with state := .committed, declarations := [⟨0⟩, ⟨1⟩] }

/-- An action that registers another one while all are run is handed out once, and the new
one is left. -/
theorem countdown_is_conserved :
    let start := new .standard .sharedObjects
    let operations : List Operation :=
      [.track countdownTransaction countdown,
        .emitAndRun ⟨[countdownTransaction], 1⟩ ⟨0⟩ (some "start"), .runStaticDestructors]
    start.host.atExit = [] ∧ ∃ after, operations.foldlM perform start = .ok after ∧
      after.host.atExit =
        [⟨.generated "f" ⟨⟨0⟩, .function, 0⟩ (.int 0), .transaction ⟨0⟩, some ⟨1⟩⟩] ∧
      (∃ history, start.Unfolds operations history after) ∧
      ∀ history, start.Unfolds operations history after →
        Balances history after.host.atExit := by
  intro start operations
  have facts : (operations.foldlM perform start).toOption.any (fun after =>
      decide (after.host.atExit =
        [⟨.generated "f" ⟨⟨0⟩, .function, 0⟩ (.int 0), .transaction ⟨0⟩, some ⟨1⟩⟩])) = true := by
    decide +kernel
  obtain ⟨after, performed, left⟩ := ok_of_any facts
  exact ⟨rfl, after, performed, of_decide_eq_true left, at_exit_actions_are_conserved rfl performed⟩

end IncrementalC.Engine
