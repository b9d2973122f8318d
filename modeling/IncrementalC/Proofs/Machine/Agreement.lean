import IncrementalC.Proofs.Machine.Running
import IncrementalC.Proofs.Machine.Symbols

/-!
Contract: all that is known about names agrees after any operations.

The look-ups by name agree because no name is defined twice among the live modules. Emitting
makes sure of that before it changes anything, removing a module takes away names of that
module only, and running code leaves all names as they are.

Owns: the operations of a machine beside its table of symbols, what each of them changes, and
the agreement that all of them keep.

Does not own: what a unit is made from, who owns a module, or what the code that is run does.
-/

namespace IncrementalC.Machine

/-! ## Running code -/

/-- No run changes which variables there are. -/
theorem keptByUses_sameNames {σ : Type} (machine : Machine) (services : Services σ) :
    machine.KeptByUses services fun state =>
      state.globals.map Prod.fst = machine.globals.map Prod.fst where
  assigns name value sameNames := (GlobalStore.keys_assign _ name value).trans sameNames
  calls _ _ sameNames := sameNames
  registers _ _ sameNames := sameNames

/-- Running code gives variables other values, whatever the host does. -/
theorem continues_run {σ : Type} (machine : Machine) (services : Services σ) (address : Address)
    (arguments : List Value) (host : σ) :
    machine.Continues (machine.run services address arguments host).2.1 := by
  obtain ⟨state, sameNames, ended⟩ := (machine.keptByUses_sameNames services).run address arguments
    rfl
  rw [ended]
  exact ⟨rfl, sameNames⟩

/-! ## Operations -/

/-- What can be asked of a machine. -/
inductive Operation : Type 1 where
  | emit (unit : CodeUnit)
  | run {σ : Type} (services : Services σ) (address : Address) (arguments : List Value) (host : σ)
  | unload (id : ModuleId)

/-- A machine beside its table of symbols. -/
structure Indexed where
  machine : Machine
  symbols : Keyed Address

namespace Indexed

/-- Emitting enters the names of the unit, unloading takes those of the module out again.
A unit that is refused changes nothing. -/
def perform (indexed : Indexed) : Operation → Indexed
  | .emit unit =>
    match indexed.machine.emit unit with
    | .ok (id, machine) => ⟨machine, Keyed.setAll (unit.addresses id) indexed.symbols⟩
    | .error _ => indexed
  | .run services address arguments host =>
    ⟨(indexed.machine.run services address arguments host).2.1, indexed.symbols⟩
  | .unload id =>
    ⟨indexed.machine.unload id, retract id (indexed.machine.symbolsOf id) indexed.symbols⟩

/-- A machine after operations in order, beginning without modules. -/
def reached (limits : Limits) (operations : List Operation) : Indexed :=
  operations.foldl perform ⟨new limits, []⟩

/-- How a call finds a function: the table says whether the name denotes one, and the
function itself is looked up by name among those that were collected. -/
def called? (indexed : Indexed) (name : String) : Option Code.Function :=
  ((indexed.symbols.get? name).filter fun address => address.kind = .function).bind fun _ =>
    indexed.machine.functionTable.get? name

/-! ### Agreement -/

/-- All that is known about names is the same. -/
structure Agrees (indexed : Indexed) : Prop where
  /-- A name has an address exactly if a live module has a variable or function of that
  name there. -/
  symbols : ∀ name address, indexed.symbols.get? name = some address ↔
    ∃ module ∈ indexed.machine.modules, module.Defines address name
  resolved : ∀ name, indexed.machine.resolve? name = indexed.symbols.get? name
  numbers : (indexed.machine.modules.map Module.id).Nodup
  once : ∀ module ∈ indexed.machine.modules, module.unit.definedNames.Nodup
  apart : indexed.machine.modules.Pairwise fun first second =>
    first.unit.definedNames.Disjoint second.unit.definedNames
  stored : ∀ name, (indexed.machine.globalValue? name).isSome ↔
    ∃ module ∈ indexed.machine.modules, name ∈ module.unit.globals.map Code.Global.name
  storedOnce : (indexed.machine.globals.map Prod.fst).Nodup
  /-- The function that a call finds is the one at the address of the name. -/
  called : ∀ name, indexed.called? name = (indexed.symbols.get? name).bind
    indexed.machine.functionAt?
  calls : ∀ {σ : Type} (services : Services σ) (allowance : Nat) (name : String)
    (arguments : List Int64),
    (indexed.machine.linkage services (indexed.machine.invoke services allowance)).call name
        arguments =
      match (indexed.symbols.get? name).bind indexed.machine.functionAt? with
      | some function => do
        return (← indexed.machine.invoke services allowance function arguments).asInt
      | none => callNative services name arguments

/-- The unit stands in a new module, its variables have their first values, and the rest
is as it was. -/
structure Installs (unit : CodeUnit) (id : ModuleId) (before after : Indexed) : Prop where
  limits : after.machine.limits = before.machine.limits
  fresh : ∀ module ∈ before.machine.modules, module.id ≠ id
  modules : after.machine.modules = before.machine.modules ++ [⟨id, unit⟩]
  symbols : ∀ name, after.symbols.get? name =
    (Module.address? ⟨id, unit⟩ name).or (before.symbols.get? name)
  values : ∀ name ∉ unit.definedNames,
    after.machine.globalValue? name = before.machine.globalValue? name
  constants : ∀ entry ∈ unit.globals,
    after.machine.globalValue? entry.name = some (entry.constant.getD 0)

/-- The module and everything of it is gone, and the rest is as it was. -/
structure Removes (id : ModuleId) (before after : Indexed) : Prop where
  limits : after.machine.limits = before.machine.limits
  nextModule : after.machine.nextModule = before.machine.nextModule
  modules : after.machine.modules = before.machine.modules.filter fun module => module.id ≠ id
  symbols : ∀ name, after.symbols.get? name =
    if name ∈ before.machine.symbolsOf id then none else before.symbols.get? name
  values : ∀ name, after.machine.globalValue? name =
    if name ∈ before.machine.symbolsOf id then none else before.machine.globalValue? name

/-- What carries the agreement through all operations. -/
structure Tabled (indexed : Indexed) : Prop where
  wellFormed : indexed.machine.WellFormed
  resolved : ∀ name, indexed.symbols.get? name = indexed.machine.resolve? name

variable {indexed : Indexed}

theorem Tabled.agrees (tabled : indexed.Tabled) : indexed.Agrees where
  symbols name address := by
    rw [tabled.resolved]
    exact tabled.wellFormed.resolve?_eq_some_iff
  resolved name := (tabled.resolved name).symm
  numbers := tabled.wellFormed.distinct
  once module live := tabled.wellFormed.once live
  apart := (List.nodup_flatMap.mp tabled.wellFormed.names).2
  stored name := tabled.wellFormed.stored_iff
  storedOnce := tabled.wellFormed.storedOnce
  called name := by
    rw [called?, tabled.resolved, ← function?_eq]
    cases found : indexed.machine.functionAddress? name with
    | none =>
      unfold functionAddress? at found
      rw [found, function?, functionAddress?, found]
      rfl
    | some address =>
      have stands := tabled.wellFormed.functionTable_eq found
      rw [function?, found]
      unfold functionAddress? at found
      rw [found]
      exact stands
  calls services allowance name arguments := by
    rw [tabled.resolved, ← function?_eq]
    rfl

theorem perform_emit_ok {unit : CodeUnit} {id : ModuleId} {grown : Machine}
    (emitted : indexed.machine.emit unit = .ok (id, grown)) :
    indexed.perform (.emit unit) = ⟨grown, Keyed.setAll (unit.addresses id) indexed.symbols⟩ := by
  simp only [perform, emitted]

theorem perform_emit_error {unit : CodeUnit} {error : GenerationError}
    (refused : indexed.machine.emit unit = .error error) :
    indexed.perform (.emit unit) = indexed := by
  simp only [perform, refused]

/-- Installing a unit enters its names into the table. -/
theorem Tabled.installs (tabled : indexed.Tabled) {unit : CodeUnit} {id : ModuleId}
    {grown : Machine} (emitted : indexed.machine.emit unit = .ok (id, grown)) :
    Installs unit id indexed ⟨grown, Keyed.setAll (unit.addresses id) indexed.symbols⟩ := by
  have values := tabled.wellFormed.globalValue?_emit emitted
  obtain ⟨unique, rfl, rfl⟩ := emit_eq emitted
  have once := (firstDuplicate?_eq_none unique).1
  refine ⟨rfl, ?_, rfl, fun name => ?_, fun name foreign => ?_, fun entry member => ?_⟩
  · intro module live same
    have below := tabled.wellFormed.numbered module live
    rw [same] at below
    exact Nat.lt_irrefl _ below
  · have distinct : ((unit.addresses ⟨indexed.machine.nextModule⟩).map Prod.fst).Nodup := by
      rw [unit.names_addresses]
      exact once
    rw [Keyed.get?_setAll distinct, CodeUnit.get?_addresses once]
  · rw [values, Keyed.get?_eq_none, Option.none_or]
    rw [unit.names_constants]
    exact fun member => foreign (List.mem_append_left _ member)
  · have distinct : (unit.constants.map Prod.fst).Nodup := by
      rw [unit.names_constants]
      exact (List.nodup_append.mp once).1
    have listed : (entry.name, entry.constant.getD 0) ∈ unit.constants :=
      List.mem_map.mpr ⟨entry, member, rfl⟩
    rw [values, (Keyed.get?_eq_some_iff distinct _).mpr listed, Option.some_or]

/-- Removing a module takes its names out of the table. -/
theorem Tabled.get?_unload (tabled : indexed.Tabled) (id : ModuleId) (name : String) :
    (indexed.perform (.unload id)).symbols.get? name =
      if name ∈ indexed.machine.symbolsOf id then none else indexed.symbols.get? name := by
  show (retract id _ _).get? name = _
  rw [get?_retract]
  by_cases owned : name ∈ indexed.machine.symbolsOf id
  · obtain ⟨module, live, rfl, defined⟩ := (mem_symbolsOf_iff tabled.wellFormed).mp owned
    rw [if_pos owned, if_pos owned, tabled.resolved, tabled.wellFormed.resolve?_eq live defined,
      Option.filter_eq_none_iff]
    intro address found
    simp [Module.address?_module found]
  · rw [if_neg owned, if_neg owned]

theorem Tabled.perform (tabled : indexed.Tabled) (operation : Operation) :
    (indexed.perform operation).Tabled := by
  cases operation with
  | emit unit =>
    cases emitted : indexed.machine.emit unit with
    | error error =>
      rw [perform_emit_error emitted]
      exact tabled
    | ok answer =>
      obtain ⟨id, grown⟩ := answer
      rw [perform_emit_ok emitted]
      refine ⟨tabled.wellFormed.emit emitted, fun name => ?_⟩
      rw [(tabled.installs emitted).symbols, tabled.resolved]
      exact (resolve?_emit emitted name).symm
  | run services address arguments host =>
    have continues := indexed.machine.continues_run services address arguments host
    refine ⟨continues.wellFormed tabled.wellFormed, fun name => ?_⟩
    show indexed.symbols.get? name = _
    rw [tabled.resolved]
    exact (continues.resolve? name).symm
  | unload id =>
    refine ⟨tabled.wellFormed.unload id, fun name => ?_⟩
    show _ = (indexed.machine.unload id).resolve? name
    rw [tabled.get?_unload, tabled.resolved, tabled.wellFormed.resolve?_unload]

theorem Tabled.removes (tabled : indexed.Tabled) (id : ModuleId) :
    Removes id indexed (indexed.perform (.unload id)) where
  limits := unload_limits indexed.machine id
  nextModule := unload_nextModule indexed.machine id
  modules := unload_modules indexed.machine id
  symbols := tabled.get?_unload id
  values _ := tabled.wellFormed.globalValue?_unload id

/-- A unit that defines a name again is refused as a whole. -/
example :
    (reached .standard
        [.emit ⟨none, [], [⟨"x", ⟨0⟩, some 1⟩], []⟩,
          .emit ⟨none, [], [⟨"y", ⟨1⟩, none⟩, ⟨"x", ⟨2⟩, none⟩], []⟩]).symbols =
      [("x", ⟨⟨0⟩, .global, 0⟩)] := by
  decide

end Indexed

end IncrementalC.Machine
