import IncrementalC.Proofs.Engine.AtExit

/-!
Contract: running code binds no name anew.

Whatever stands at an address and however it ends, a run leaves the modules, what every name
denotes, the limits and the variables there are; it leaves the functions that were added and
the libraries that are open. All it can do to the registry is to add actions, and these carry
whom the code ran for and the address of a function of a live module. So what was found out
about names before a run holds after it.

Owns: what a run leaves bound.

Does not own: what the creator of native functions answers.
-/

namespace IncrementalC

/-- The action carries whom code ran for, and calls a function that the machine has. -/
structure AtExitAction.IsRegisteredFor (machine : Machine) (owner : AtExitOwner)
    (origin : Option DeclarationId) (action : AtExitAction) : Prop where
  owner : action.owner = owner
  origin : action.origin = origin
  callback : ∃ name address argument, action.callback = .generated name address argument ∧
    machine.functionAddress? name = some address ∧ machine.HasFunction name address

/-- What code leaves as it was when it runs for `owner`. -/
structure Machine.LeavesBound (owner : AtExitOwner) (origin : Option DeclarationId)
    (before : Machine) (host : HostState) (after : Machine) (hostAfter : HostState) : Prop where
  modules : after.modules = before.modules
  symbols : ∀ name, after.resolve? name = before.resolve? name
  limits : after.limits = before.limits
  nextModule : after.nextModule = before.nextModule
  stored : after.globals.map Prod.fst = before.globals.map Prod.fst
  added : hostAfter.resolver.added = host.resolver.added
  libraries : hostAfter.resolver.libraries = host.resolver.libraries
  loader : hostAfter.resolver.loader = host.resolver.loader
  /-- What a native function was found under a name, is found again. -/
  known : ∀ name function, host.resolver.known? name = some function →
    hostAfter.resolver.known? name = some function
  atExit : ∃ made, hostAfter.atExit = made ++ host.atExit ∧
    ∀ action ∈ made, action.IsRegisteredFor before owner origin

/-- Running code binds no name anew, whatever it is called with and however it ends. -/
theorem Machine.running_binds_nothing_anew (machine : Machine) (owner : AtExitOwner)
    (origin : Option DeclarationId) (address : Address) (arguments : List Value)
    (host : HostState) :
    Machine.LeavesBound owner origin machine host
      (machine.run (hostServices owner origin) address arguments host).2.1
      (machine.run (hostServices owner origin) address arguments host).2.2 := by
  obtain ⟨continues, hosted⟩ := machine.run_continues owner origin address arguments host
  have registered := machine.run_atExit owner origin address arguments host
  refine
    { modules := continues.modules
      symbols := continues.resolve?
      limits := by rw [continues.same]
      nextModule := continues.nextModule
      stored := continues.globals
      added := hosted.resolver.added
      libraries := hosted.resolver.libraries
      loader := hosted.resolver.loader
      known := fun name function => hosted.resolver.known?
      atExit := ⟨_, registered, ?_⟩ }
  intro action member
  obtain ⟨actions, registry, calls⟩ := hosted.atExit
  rw [registered] at registry
  obtain rfl := List.append_cancel_right registry
  obtain ⟨name, target, argument, callback, found⟩ := calls action member
  obtain ⟨registration, -, rfl⟩ := List.mem_map.mp member
  exact ⟨rfl, rfl, name, target, argument, callback, found, hasFunction_of_functionAddress? found⟩

end IncrementalC
