import IncrementalC.Engine.Unloading
import IncrementalC.Proofs.Library.Resolver
import IncrementalC.Proofs.Machine.Module
import IncrementalC.Proofs.Machine.Running

/-!
Contract: what a run leaves in an engine.

Running code gives variables other values, lets the creator answer, adds events to the
trace and registers functions. Everything else stays, and the run is noted.

Owns: hosts and engines that continue another one, and what a run leaves.

Does not own: what is run.
-/

namespace IncrementalC

/-! ## Hosts -/

/-- The action calls a generated function. -/
def AtExitAction.CallsFunction (machine : Machine) (action : AtExitAction) : Prop :=
  ∃ name address argument, action.callback = .generated name address argument ∧
    machine.functionAddress? name = some address

/-- `after` is `before` after code has run on `machine`. -/
structure HostState.Continues (machine : Machine) (before after : HostState) : Prop where
  resolver : before.resolver.Continues after.resolver
  trace : ∃ events, after.trace = events ++ before.trace
  atExit : ∃ actions, after.atExit = actions ++ before.atExit ∧
    ∀ action ∈ actions, action.CallsFunction machine

namespace HostState.Continues

variable {machine : Machine} {before between after : HostState}

theorem refl (machine : Machine) (host : HostState) : HostState.Continues machine host host :=
  ⟨.refl _, ⟨[], rfl⟩, [], rfl, fun _ member => absurd member List.not_mem_nil⟩

theorem trans (first : HostState.Continues machine before between)
    (second : HostState.Continues machine between after) :
    HostState.Continues machine before after where
  resolver := first.resolver.trans second.resolver
  trace := by
    obtain ⟨firstEvents, firstTrace⟩ := first.trace
    obtain ⟨secondEvents, secondTrace⟩ := second.trace
    exact ⟨secondEvents ++ firstEvents, by rw [secondTrace, firstTrace, List.append_assoc]⟩
  atExit := by
    obtain ⟨firstActions, firstRegistry, firstCalls⟩ := first.atExit
    obtain ⟨secondActions, secondRegistry, secondCalls⟩ := second.atExit
    refine ⟨secondActions ++ firstActions, ?_, ?_⟩
    · rw [secondRegistry, firstRegistry, List.append_assoc]
    · intro action member
      exact (List.mem_append.mp member).elim (secondCalls action) (firstCalls action)

end HostState.Continues

theorem Resolver.resolve_trace (resolver : Resolver) (name : String) (trace : Trace) :
    ∃ events, (resolver.resolve name trace).2.2 = events ++ trace := by
  unfold Resolver.resolve
  cases resolver.known? name with
  | some function => exact ⟨[], rfl⟩
  | none =>
    cases resolver.creator with
    | none => exact ⟨[], rfl⟩
    | some create =>
      refine ⟨[.functionRequested name], ?_⟩
      dsimp only
      cases create name <;> rfl

theorem NativeFunction.call_trace (function : NativeFunction) (arguments : List Int64)
    (trace : Trace) : ∃ events, (function.call arguments trace).2 = events ++ trace := by
  cases function with
  | host function => exact ⟨[.called function.identity arguments], rfl⟩
  | foreign name code =>
    cases code with
    | none => exact ⟨[], rfl⟩
    | some code =>
      unfold NativeFunction.call
      dsimp only
      split
      · exact ⟨[], rfl⟩
      · exact ⟨[.called code.identity arguments], rfl⟩

/-- A native call lets the creator answer and adds events. -/
theorem hostServices_callNative (machine : Machine) (owner : AtExitOwner)
    (origin : Option DeclarationId) (name : String) (arguments : List Int64) (host : HostState) :
    HostState.Continues machine host
      ((hostServices owner origin).callNative name arguments host).2 := by
  have resolved := host.resolver.resolve_continues name host.trace
  obtain ⟨asked, askedTrace⟩ := host.resolver.resolve_trace name host.trace
  simp only [hostServices]
  rcases answer : host.resolver.resolve name host.trace with ⟨_ | function, resolver, trace⟩
  · rw [answer] at resolved askedTrace
    exact ⟨resolved, ⟨asked, askedTrace⟩, [], rfl, fun _ member => absurd member List.not_mem_nil⟩
  · rw [answer] at resolved askedTrace
    obtain ⟨called, calledTrace⟩ := function.call_trace arguments trace
    refine ⟨resolved, ⟨called ++ asked, ?_⟩, [], rfl,
      fun _ member => absurd member List.not_mem_nil⟩
    rw [List.append_assoc, ← askedTrace]
    exact calledTrace

theorem hostServices_registerAtExit (machine : Machine) (owner : AtExitOwner)
    (origin : Option DeclarationId) {name : String} {address : Address}
    (found : machine.functionAddress? name = some address) (argument : Value) (host : HostState) :
    HostState.Continues machine host
      ((hostServices owner origin).registerAtExit name address argument host) where
  resolver := .refl _
  trace := ⟨[.atExitRegistered name address argument], rfl⟩
  atExit := by
    refine ⟨[⟨.generated name address argument, owner, origin⟩], rfl, ?_⟩
    intro action member
    rw [List.mem_singleton.mp member]
    exact ⟨name, address, argument, rfl, found⟩

/-! ## Runs -/

/-- What every run keeps: which variables there are, and all that the host had. -/
def RunsOn (machine : Machine) (host : HostState) (state : Machine.State HostState) : Prop :=
  state.globals.map Prod.fst = machine.globals.map Prod.fst ∧
    HostState.Continues machine host state.host

theorem keptByUses_runsOn (machine : Machine) (host : HostState) (owner : AtExitOwner)
    (origin : Option DeclarationId) :
    machine.KeptByUses (hostServices owner origin) (RunsOn machine host) where
  assigns name value holds :=
    ⟨(Machine.GlobalStore.keys_assign _ name value).trans holds.1, holds.2⟩
  calls name arguments holds :=
    ⟨holds.1, holds.2.trans (hostServices_callNative machine owner origin name arguments _)⟩
  registers argument found holds :=
    ⟨holds.1, holds.2.trans (hostServices_registerAtExit machine owner origin found argument _)⟩

theorem permits_runsOn (machine : Machine) (host : HostState) (owner : AtExitOwner)
    (origin : Option DeclarationId) :
    machine.Permits (hostServices owner origin) (RunsOn machine host) (fun _ => True)
      (fun _ => True) :=
  (keptByUses_runsOn machine host owner origin).permits (fun _ => trivial) trivial fun _ _ =>
    CodeUnit.fits_of_allowed (fun _ _ => trivial) _

/-- Running code gives variables other values and continues the host. -/
theorem Machine.run_continues (machine : Machine) (owner : AtExitOwner)
    (origin : Option DeclarationId) (address : Address) (arguments : List Value)
    (host : HostState) :
    machine.Continues (machine.run (hostServices owner origin) address arguments host).2.1 ∧
      HostState.Continues machine host
        (machine.run (hostServices owner origin) address arguments host).2.2 := by
  obtain ⟨state, runsOn, ended⟩ := (keptByUses_runsOn machine host owner origin).run address
    arguments ⟨rfl, .refl machine host⟩
  rw [ended]
  exact ⟨⟨rfl, runsOn.1⟩, runsOn.2⟩

namespace Engine

/-- `after` is `before` after code has run; what is noted about it is left open. -/
structure Continues (before after : Engine) : Prop where
  machine : before.machine.Continues after.machine
  states : after.states = before.states
  host : HostState.Continues before.machine before.host after.host
  loadedFiles : after.loadedFiles = before.loadedFiles

namespace Continues

variable {before between after : Engine}

theorem refl (engine : Engine) : engine.Continues engine :=
  ⟨.refl _, rfl, .refl _ _, rfl⟩

theorem functionAddress? (continues : before.Continues after) (name : String) :
    after.machine.functionAddress? name = before.machine.functionAddress? name := by
  unfold Machine.functionAddress?
  rw [continues.machine.resolve?]

theorem trans (first : before.Continues between) (second : between.Continues after) :
    before.Continues after where
  machine := first.machine.trans second.machine
  states := second.states.trans first.states
  host := by
    refine first.host.trans ⟨second.host.resolver, second.host.trace, ?_⟩
    obtain ⟨actions, registry, calls⟩ := second.host.atExit
    refine ⟨actions, registry, ?_⟩
    intro action member
    obtain ⟨name, address, argument, same, found⟩ := calls action member
    rw [first.functionAddress?] at found
    exact ⟨name, address, argument, same, found⟩
  loadedFiles := second.loadedFiles.trans first.loadedFiles

end Continues

/-- A run is noted, and leaves the rest as it was. -/
theorem runFor_eq {engine after : Engine} {purpose : Purpose} {owner : AtExitOwner}
    {origin : Option DeclarationId} {address : Address} {arguments : List Value}
    {result : Except Fault Value}
    (ran : engine.runFor purpose owner origin address arguments = .ok (result, after)) :
    engine.Continues after ∧
      after.journal =
        engine.moment (.ran purpose owner origin address result) :: engine.journal := by
  obtain ⟨machine, host⟩ := engine.machine.run_continues owner origin address arguments engine.host
  unfold runFor at ran
  rcases finished : engine.machine.run (hostServices owner origin) address arguments engine.host
    with ⟨(_ | _) | value, machineAfter, hostAfter⟩
  · rw [finished] at ran machine host
    obtain ⟨rfl, rfl⟩ := Prod.mk.inj (Except.ok.inj ran)
    exact ⟨⟨machine, rfl, host, rfl⟩, rfl⟩
  · rw [finished] at ran
    cases ran
  · rw [finished] at ran machine host
    obtain ⟨rfl, rfl⟩ := Prod.mk.inj (Except.ok.inj ran)
    exact ⟨⟨machine, rfl, host, rfl⟩, rfl⟩

end Engine

end IncrementalC
