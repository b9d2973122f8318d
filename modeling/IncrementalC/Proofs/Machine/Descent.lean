import IncrementalC.Proofs.Machine.Module

/-!
Contract: modules are never changed, and their numbers never given again.

Code comes and goes by whole modules. A new module gets a number that no module had
before, so what a number denotes stays as it is until it is gone, and then stays gone.

Owns: machines that have come from others, what a number and an address denote on them,
and running a function whose body is at hand.

Does not own: when code is generated, removed or run.
-/

namespace IncrementalC.Machine

/-- `after` has come from `before` by generating, removing and running code. -/
inductive Descends : Machine → Machine → Prop where
  | refl (machine : Machine) : Descends machine machine
  | generated {machine grown : Machine} {unit : CodeUnit} {id : ModuleId}
      (emitted : machine.emit unit = .ok (id, grown)) : Descends machine grown
  | removed (machine : Machine) (id : ModuleId) : Descends machine (machine.unload id)
  | ran {before after : Machine} (continues : before.Continues after) : Descends before after
  | trans {before between after : Machine} (first : Descends before between)
      (second : Descends between after) : Descends before after

namespace Descends

variable {before between after : Machine}

theorem wellFormed (descends : before.Descends after) (wellFormed : before.WellFormed) :
    after.WellFormed := by
  induction descends with
  | refl machine => exact wellFormed
  | generated emitted => exact wellFormed.emit emitted
  | removed machine id => exact wellFormed.unload id
  | ran continues => exact continues.wellFormed wellFormed
  | trans first second firstKeeps secondKeeps => exact secondKeeps (firstKeeps wellFormed)

theorem nextModule (descends : before.Descends after) : before.nextModule ≤ after.nextModule := by
  induction descends with
  | refl machine => exact Nat.le_refl _
  | generated emitted =>
    obtain ⟨-, -, rfl⟩ := emit_eq emitted
    exact Nat.le_succ _
  | removed machine id => exact Nat.le_of_eq (unload_nextModule machine id).symm
  | ran continues => exact Nat.le_of_eq continues.nextModule.symm
  | trans first second firstLe secondLe => exact Nat.le_trans firstLe secondLe

/-- Every module is an old one, or has a number that was not given before. -/
theorem mem_modules (descends : before.Descends after) {module : Module}
    (member : module ∈ after.modules) :
    module ∈ before.modules ∨ before.nextModule ≤ module.id.number := by
  induction descends with
  | refl machine => exact .inl member
  | generated emitted =>
    obtain ⟨-, rfl, rfl⟩ := emit_eq emitted
    rcases List.mem_append.mp member with old | new
    · exact .inl old
    · rw [List.mem_singleton.mp new]
      exact .inr (Nat.le_refl _)
  | removed machine id =>
    rw [unload_modules] at member
    exact .inl (List.mem_of_mem_filter member)
  | ran continues => exact .inl (continues.modules ▸ member)
  | trans first second firstOld secondOld =>
    rcases secondOld member with old | new
    · exact firstOld old
    · exact .inr (Nat.le_trans first.nextModule new)

/-- A module whose number was given before is the module that had the number, or gone. -/
theorem module? (descends : before.Descends after) (wellFormed : before.WellFormed)
    {id : ModuleId} (given : id.number < before.nextModule) {module : Module}
    (live : after.module? id = some module) : before.module? id = some module := by
  obtain rfl := id_of_module? live
  rcases descends.mem_modules (mem_of_module? live) with old | new
  · exact wellFormed.module?_of_mem old
  · exact absurd given (Nat.not_lt_of_le new)

/-- A module that is gone does not come back. -/
theorem stays_gone (descends : before.Descends after) (wellFormed : before.WellFormed)
    {id : ModuleId} (given : id.number < before.nextModule)
    (gone : before.isLive id = false) : after.isLive id = false := by
  cases found : after.module? id with
  | none => rw [isLive, found, Option.isSome_none]
  | some module =>
    rw [isLive, descends.module? wellFormed given found] at gone
    cases gone

end Descends

/-! ## Functions at addresses -/

section

variable {machine : Machine} {address : Address} {function : Code.Function}

theorem functionAt?_of_module {module : Module} (kind : address.kind = .function)
    (live : machine.module? address.module = some module) :
    machine.functionAt? address = module.unit.functions[address.index]? := by
  unfold functionAt?
  rw [kind, live]
  rfl

/-- The number of what is live was given before. -/
theorem WellFormed.given (wellFormed : machine.WellFormed)
    (found : machine.functionAt? address = some function) :
    address.module.number < machine.nextModule := by
  obtain ⟨-, module, live, -⟩ := module_of_functionAt? found
  rw [← id_of_module? live]
  exact wellFormed.numbered module (mem_of_module? live)

/-- At an address that is still live there stands what stood there. -/
theorem Descends.functionAt? {before after : Machine} (descends : before.Descends after)
    (wellFormed : before.WellFormed) (found : before.functionAt? address = some function)
    (live : after.isLive address.module = true) : after.functionAt? address = some function := by
  obtain ⟨module, still⟩ := Option.isSome_iff_exists.mp live
  obtain ⟨kind, other, was, at?⟩ := module_of_functionAt? found
  rw [descends.module? wellFormed (wellFormed.given found) still] at was
  obtain rfl := Option.some.inj was
  rw [functionAt?_of_module kind still, at?]

/-- A live module has a function of that name at the address. -/
def HasFunction (machine : Machine) (name : String) (address : Address) : Prop :=
  ∃ module ∈ machine.modules, module.id = address.module ∧ address.kind = .function ∧
    ∃ function, module.unit.functions[address.index]? = some function ∧ function.name = name

/-- The address of a function that a name denotes is one where a function of that name is. -/
theorem hasFunction_of_functionAddress? {name : String}
    (found : machine.functionAddress? name = some address) : machine.HasFunction name address := by
  obtain ⟨resolved, kind⟩ := Option.filter_eq_some_iff.mp found
  have isFunction : address.kind = .function := of_decide_eq_true kind
  obtain ⟨module, live, inModule⟩ := exists_of_resolve? resolved
  refine ⟨module, live, (Module.address?_module inModule).symm, isFunction, ?_⟩
  rcases Module.address?_cases inModule with ⟨other, -⟩ | ⟨-, function, at?, same⟩
  · rw [isFunction] at other
    cases other
  · exact ⟨function, at?, same⟩

/-- The address of a function leads to a function of that name. -/
theorem WellFormed.functionAt?_of_functionAddress? (wellFormed : machine.WellFormed)
    {name : String} (found : machine.functionAddress? name = some address) :
    ∃ function, machine.functionAt? address = some function ∧ function.name = name := by
  obtain ⟨module, live, own, isFunction, function, at?, same⟩ :=
    hasFunction_of_functionAddress? found
  have here := wellFormed.module?_of_mem live
  rw [own] at here
  exact ⟨function, (functionAt?_of_module isFunction here).trans at?, same⟩

end

/-! ## Running a function -/

/-- Runs a function whose body is at hand. -/
def runFunction {σ : Type} (machine : Machine) (services : Services σ) (function : Code.Function)
    (arguments : List Value) (host : σ) : Except Stop Value × Machine × σ :=
  match machine.invoke services machine.limits.callDepth function (arguments.map Value.asInt)
    ⟨machine.globals, host⟩ with
  | .ok value state => (.ok value, { machine with globals := state.globals }, state.host)
  | .error stop state => (.error stop, { machine with globals := state.globals }, state.host)

/-- Running what stands at the address of a function is running the function. -/
theorem run_eq_runFunction {σ : Type} {machine : Machine} {address : Address}
    {function : Code.Function} (found : machine.functionAt? address = some function)
    (services : Services σ) (arguments : List Value) (host : σ) :
    machine.run services address arguments host =
      machine.runFunction services function arguments host := by
  obtain ⟨kind, module, live, at?⟩ := module_of_functionAt? found
  have runs : machine.runAt services address arguments =
      machine.invoke services machine.limits.callDepth function (arguments.map Value.asInt) := by
    simp only [runAt, live, kind, at?]
  cases finished : machine.invoke services machine.limits.callDepth function
      (arguments.map Value.asInt) ⟨machine.globals, host⟩ with
  | ok value state => simp only [run, runFunction, runs, finished]
  | error stop state => simp only [run, runFunction, runs, finished]

end IncrementalC.Machine
