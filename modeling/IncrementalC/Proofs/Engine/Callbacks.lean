import IncrementalC.Proofs.Engine.Conservation

/-!
Contract: an action stays bound to the code it was registered with.

An action carries the address that its name had when it was registered. As no address is
given twice and code is not changed while it is live, the action runs the body that was
meant then, or nothing once that body is gone.

Owns: everything that can be done with code, in any order, and what the turn of an action
executes.

Does not own: when actions are run.
-/

namespace IncrementalC.Engine

/-! ## Everything that can be done with code -/

/-- What can be done with the code of an engine: the single steps, on any unit, module or
action, and the operations that are made of them. -/
inductive CodeOperation where
  | emit (unit : CodeUnit)
  | unloadModule (id : ModuleId)
  | run (purpose : Purpose) (owner : AtExitOwner) (origin : Option DeclarationId)
      (address : Address) (arguments : List Value)
  | handOut (owner : Option AtExitOwner)
  | runActions (actions : List AtExitAction)
  | perform (operation : Operation)

/-- Does it; a unit that cannot be emitted changes nothing. -/
def performCode (engine : Engine) : CodeOperation → Except Breakdown Engine
  | .emit unit =>
    match engine.machine.emit unit with
    | .ok (_, machine) => .ok { engine with machine }
    | .error _ => .ok engine
  | .unloadModule id => .ok { engine with machine := engine.machine.unload id }
  | .run purpose owner origin address arguments =>
    Prod.snd <$> engine.runFor purpose owner origin address arguments
  | .handOut owner => .ok (engine.handOut owner)
  | .runActions actions => engine.runAtExit actions
  | .perform operation => engine.perform operation

section

variable {before after : Engine}

theorem performCode_descends {operation : CodeOperation}
    (performed : before.performCode operation = .ok after) :
    before.machine.Descends after.machine := by
  cases operation with
  | emit unit =>
    simp only [performCode] at performed
    split at performed
    · next emitted =>
      cases performed
      exact .generated emitted
    · cases performed
      exact .refl _
  | unloadModule id =>
    cases performed
    exact .removed _ id
  | run purpose owner origin address arguments =>
    obtain ⟨⟨result, _⟩, ran, rfl⟩ := ok_of_map performed
    exact .ran (runFor_eq ran).1.machine
  | handOut owner =>
    cases performed
    exact .refl _
  | runActions actions =>
    obtain ⟨deeds, does, -⟩ := runAtExit_does performed
    exact does.descends
  | perform operation =>
    obtain ⟨deeds, does, -⟩ := perform_does performed
    exact does.descends

theorem performCode_foldlM_descends {operations : List CodeOperation}
    (performed : operations.foldlM performCode before = .ok after) :
    before.machine.Descends after.machine := by
  induction operations generalizing before with
  | nil =>
    cases performed
    exact .refl _
  | cons operation rest inductionHypothesis =>
    rw [List.foldlM_cons] at performed
    cases step : before.performCode operation with
    | error breakdown =>
      rw [step] at performed
      cases performed
    | ok between =>
      rw [step] at performed
      exact (performCode_descends step).trans (inductionHypothesis performed)

/-! ## Registered actions -/

/-- What a run registers is what its names denote then. -/
theorem callsFunction_of_mem_registrations {purpose : Purpose} {owner : AtExitOwner}
    {origin : Option DeclarationId} {address : Address} {arguments : List Value}
    {result : Except Fault Value} {action : AtExitAction}
    (ran : before.runFor purpose owner origin address arguments = .ok (result, after))
    (registered : action ∈ before.registrations owner origin address arguments) :
    action.CallsFunction before.machine := by
  obtain ⟨actions, registry, calls⟩ := (runFor_eq ran).1.host.atExit
  rw [runFor_atExit ran] at registry
  exact calls action (List.append_cancel_right registry ▸ registered)

end

/-! ## The turn of an action -/

/-- The turn of an action calls `body` with `argument`. -/
structure Executes (engine : Engine) (action : AtExitAction) (body : Code.Function)
    (argument : Value) (address : Address) : Prop where
  turn : ∀ rest, engine.runAtExit (action :: rest) =
    (engine.runFor .atExit action.owner action.origin address [argument]).bind fun finished =>
      finished.2.runAtExit rest
  body : engine.machine.run (hostServices action.owner action.origin) address [argument]
      engine.host =
    engine.machine.runFunction (hostServices action.owner action.origin) body [argument]
      engine.host

theorem executes {engine : Engine} {action : AtExitAction} {name : String} {address : Address}
    {argument : Value} {body : Code.Function}
    (callback : action.callback = .generated name address argument)
    (live : engine.machine.isLive address.module = true)
    (found : engine.machine.functionAt? address = some body) :
    engine.Executes action body argument address where
  turn rest := by
    rw [runAtExit, callback]
    dsimp only
    rw [if_pos live]
    cases engine.runFor .atExit action.owner action.origin address [argument] <;> rfl
  body := Machine.run_eq_runFunction found _ _ _

theorem runAtExit_skips {engine : Engine} {action : AtExitAction} {name : String}
    {address : Address} {argument : Value}
    (callback : action.callback = .generated name address argument)
    (gone : engine.machine.isLive address.module = false) (rest : List AtExitAction) :
    engine.runAtExit (action :: rest) = engine.runAtExit rest := by
  rw [runAtExit, callback]
  dsimp only
  rw [gone, if_neg Bool.false_ne_true]

/-- An action that was registered by a run, from an engine without code on, executes the
body that its name denoted during that run, whatever is done with code before and after.
Once the module of that body is gone it stays gone, and the action is skipped. -/
theorem actions_stay_bound_to_their_code {limits : Limits} {source : LibrarySource}
    {earlier later : List CodeOperation} {before after now : Engine} {purpose : Purpose}
    {owner : AtExitOwner} {origin : Option DeclarationId} {address : Address}
    {arguments : List Value} {result : Except Fault Value} {action : AtExitAction}
    (reached : earlier.foldlM performCode (new limits source) = .ok before)
    (ran : before.runFor purpose owner origin address arguments = .ok (result, after))
    (registered : action ∈ before.registrations owner origin address arguments)
    (performed : later.foldlM performCode after = .ok now) :
    ∃ name target argument body, action.callback = .generated name target argument ∧
      before.machine.functionAddress? name = some target ∧
      before.machine.function? name = some body ∧ body.name = name ∧
      (now.machine.isLive target.module = true → now.Executes action body argument target) ∧
      (now.machine.isLive target.module = false →
        ∀ rest, now.runAtExit (action :: rest) = now.runAtExit rest) ∧
      ∀ first second between, later = first ++ second →
        first.foldlM performCode after = .ok between →
        between.machine.isLive target.module = false →
        now.machine.isLive target.module = false := by
  have wellFormed : before.machine.WellFormed :=
    (performCode_foldlM_descends reached).wellFormed (Machine.wellFormed_new limits)
  have running : before.machine.Descends after.machine := .ran (runFor_eq ran).1.machine
  obtain ⟨name, target, argument, callback, resolved⟩ :=
    callsFunction_of_mem_registrations ran registered
  obtain ⟨body, found, same⟩ := wellFormed.functionAt?_of_functionAddress? resolved
  refine ⟨name, target, argument, body, callback, resolved, ?_, same, ?_, ?_, ?_⟩
  · rw [Machine.function?, resolved]
    exact found
  · intro live
    have descends := running.trans (performCode_foldlM_descends performed)
    exact executes callback live (descends.functionAt? wellFormed found live)
  · intro gone rest
    exact runAtExit_skips callback gone rest
  · rintro first second between rfl reachedBetween gone
    rw [List.foldlM_append, reachedBetween] at performed
    have descends := running.trans (performCode_foldlM_descends reachedBetween)
    have given := Nat.lt_of_lt_of_le (wellFormed.given found) descends.nextModule
    exact (performCode_foldlM_descends performed).stays_gone (descends.wellFormed wellFormed)
      given gone

/-- A registered function is called as long as its module is live. Once the module was
removed, its action is skipped, although there is a newer function of that name. -/
theorem countdown_stays_bound :
    let start := new .standard .sharedObjects
    let action : AtExitAction :=
      ⟨.generated "f" ⟨⟨0⟩, .function, 0⟩ (.int 1), .transaction ⟨0⟩, none⟩
    ∃ before after now result,
      [.emit countdown].foldlM performCode start = .ok before ∧
      before.runFor .request (.transaction ⟨0⟩) none ⟨⟨0⟩, .function, 1⟩ [] = .ok (result, after) ∧
      action ∈ before.registrations (.transaction ⟨0⟩) none ⟨⟨0⟩, .function, 1⟩ [] ∧
      [.unloadModule ⟨0⟩, .emit countdown].foldlM performCode after = .ok now ∧
      now.machine.functionAddress? "f" = some ⟨⟨1⟩, .function, 0⟩ ∧
      (∃ body, before.machine.function? "f" = some body ∧
        after.Executes action body (.int 1) ⟨⟨0⟩, .function, 0⟩) ∧
      ∀ rest, now.runAtExit (action :: rest) = now.runAtExit rest := by
  intro start action
  have facts : ([.emit countdown].foldlM performCode start).toOption.any (fun before =>
      decide (action ∈ before.registrations (.transaction ⟨0⟩) none ⟨⟨0⟩, .function, 1⟩ []) &&
      (before.runFor .request (.transaction ⟨0⟩) none ⟨⟨0⟩, .function, 1⟩ []).toOption.any fun ran =>
        ran.2.machine.isLive ⟨0⟩ &&
        ([.unloadModule ⟨0⟩, .emit countdown].foldlM performCode ran.2).toOption.any fun now =>
          !now.machine.isLive ⟨0⟩ &&
            decide (now.machine.functionAddress? "f" = some ⟨⟨1⟩, .function, 0⟩)) = true := by
    decide +kernel
  obtain ⟨before, reached, facts⟩ := ok_of_any facts
  obtain ⟨registered, facts⟩ := (Bool.and_eq_true _ _).mp facts
  obtain ⟨⟨result, after⟩, ran, facts⟩ := ok_of_any facts
  obtain ⟨live, facts⟩ := (Bool.and_eq_true _ _).mp facts
  obtain ⟨now, performed, facts⟩ := ok_of_any facts
  obtain ⟨gone, newer⟩ := (Bool.and_eq_true _ _).mp facts
  have registered := of_decide_eq_true registered
  refine ⟨before, after, now, result, reached, ran, registered, performed,
    of_decide_eq_true newer, ?_, ?_⟩
  · have nothing : [].foldlM performCode after = .ok after := rfl
    obtain ⟨name, target, argument, body, callback, -, found, -, executes, -⟩ :=
      actions_stay_bound_to_their_code reached ran registered nothing
    obtain ⟨rfl, rfl, rfl⟩ := AtExitCallback.generated.inj callback
    exact ⟨body, found, executes live⟩
  · obtain ⟨name, target, argument, body, callback, -, -, -, -, skips, -⟩ :=
      actions_stay_bound_to_their_code reached ran registered performed
    obtain ⟨rfl, rfl, rfl⟩ := AtExitCallback.generated.inj callback
    exact skips (Bool.not_eq_true' _ |>.mp gone)

end IncrementalC.Engine
