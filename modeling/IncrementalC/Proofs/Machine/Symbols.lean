import IncrementalC.Proofs.Machine.Descent
import IncrementalC.Proofs.Machine.Storage
import IncrementalC.Text.Keyed

/-!
Contract: the names that a machine knows, wherever they are kept.

Beside the live modules stand three look-ups by name: the table of symbols, into which names
are entered when code is installed and from which they are taken when it is removed, the
functions that a call can find, and the storage of the variables. None of them looks at the
others.

Owns: what stands at an address, what installing and removing code does to each look-up, and
the table of symbols and the table of functions.

Does not own: sequences of operations, or what the code that is run does.
-/

namespace IncrementalC

/-! ## Tables -/

namespace Keyed

variable {α : Type} {entries table : Keyed α} {name : String}

/-- Sets several names, one after the other. -/
def setAll (entries table : Keyed α) : Keyed α :=
  entries.foldl (fun table entry => table.set entry.1 entry.2) table

theorem get?_cons (entry : String × α) (rest : Keyed α) (name : String) :
    get? (entry :: rest) name = if entry.1 = name then some entry.2 else get? rest name := by
  unfold get?
  rw [List.find?_cons]
  by_cases same : entry.1 = name <;> simp [same]

theorem get?_eq_none (absent : name ∉ entries.map Prod.fst) : get? entries name = none := by
  unfold get?
  rw [Option.map_eq_none_iff, List.find?_eq_none]
  intro entry member same
  exact absent (List.mem_map.mpr ⟨entry, member, of_decide_eq_true same⟩)

/-- Under a name that is listed once its own value is found. -/
theorem get?_eq_some_iff (distinct : (entries.map Prod.fst).Nodup) (value : α) :
    get? entries name = some value ↔ (name, value) ∈ entries := by
  induction entries with
  | nil => simp
  | cons entry rest inductionHypothesis =>
    obtain ⟨absent, restDistinct⟩ := List.nodup_cons.mp distinct
    rw [get?_cons, List.mem_cons]
    by_cases same : entry.1 = name
    · have notLater : (name, value) ∉ rest := fun later =>
        absent (List.mem_map.mpr ⟨_, later, same.symm⟩)
      rw [if_pos same, Option.some.injEq, Prod.ext_iff]
      simp [same, notLater, eq_comm]
    · rw [if_neg same, inductionHypothesis restDistinct, Prod.ext_iff]
      simp [Ne.symm same]

/-- What is set last is found; under other names nothing changes. -/
theorem get?_setAll (distinct : (entries.map Prod.fst).Nodup) (table : Keyed α) (name : String) :
    get? (setAll entries table) name = (get? entries name).or (get? table name) := by
  induction entries generalizing table with
  | nil => rfl
  | cons entry rest inductionHypothesis =>
    obtain ⟨absent, restDistinct⟩ := List.nodup_cons.mp distinct
    show get? (setAll rest (table.set entry.1 entry.2)) name = _
    rw [inductionHypothesis restDistinct, get?_set, get?_cons]
    by_cases same : name = entry.1
    · rw [same, get?_eq_none absent]
      simp
    · rw [if_neg same, if_neg (Ne.symm same)]

/-- What is filtered by name is found if its name stays. -/
theorem get?_filter (table : Keyed α) (gone : List String) (name : String) :
    get? (table.filter fun entry => entry.1 ∉ gone) name =
      if name ∈ gone then none else get? table name := by
  unfold get?
  rw [List.find?_filter]
  split
  · next dropped =>
    rw [Option.map_eq_none_iff, List.find?_eq_none]
    intro entry _ found
    obtain ⟨kept, rfl⟩ : entry.1 ∉ gone ∧ entry.1 = name := by simpa using found
    exact kept dropped
  · next kept =>
    congr 2
    funext entry
    by_cases same : entry.1 = name <;> simp [same, kept]

theorem get?_erase (table : Keyed α) (gone name : String) :
    get? (table.erase gone) name = if name = gone then none else get? table name := by
  have filtered := get?_filter table [gone] name
  simp only [List.mem_singleton] at filtered
  exact filtered

end Keyed

/-! ## What stands at an address -/

/-- In the module there stands at the address a variable or a function of the name. -/
def Module.Defines (module : Module) (address : Address) (name : String) : Prop :=
  address.module = module.id ∧
    match address.kind with
    | .global => module.unit.globals[address.index]?.map Code.Global.name = some name
    | .function => module.unit.functions[address.index]?.map Code.Function.name = some name
    | .initializer => False

theorem Module.Defines.defined {module : Module} {address : Address} {name : String}
    (stands : module.Defines address name) : name ∈ module.unit.definedNames := by
  obtain ⟨owner, kind, index⟩ := address
  obtain ⟨-, named⟩ := stands
  cases kind with
  | global =>
    obtain ⟨entry, at?, same⟩ := Option.map_eq_some_iff.mp named
    exact List.mem_append_left _ (List.mem_map.mpr ⟨entry, List.mem_of_getElem? at?, same⟩)
  | function =>
    obtain ⟨function, at?, same⟩ := Option.map_eq_some_iff.mp named
    exact List.mem_append_right _ (List.mem_map.mpr ⟨function, List.mem_of_getElem? at?, same⟩)
  | initializer => exact named.elim

private theorem findIdx?_of_nodup {α : Type} {view : α → String} {elements : List α}
    (distinct : (elements.map view).Nodup) {name : String} {index : Nat}
    (found : elements[index]?.map view = some name) :
    elements.findIdx? (fun element => view element = name) = some index := by
  induction elements generalizing index with
  | nil => cases found
  | cons head tail inductionHypothesis =>
    obtain ⟨absent, tailDistinct⟩ := List.nodup_cons.mp distinct
    rw [List.findIdx?_cons]
    cases index with
    | zero =>
      have same : view head = name := Option.some.inj found
      simp [same]
    | succ index =>
      rw [List.getElem?_cons_succ] at found
      obtain ⟨element, at?, same⟩ := Option.map_eq_some_iff.mp found
      have differs : view head ≠ name := by
        intro here
        apply absent
        rw [here, ← same]
        exact List.mem_map_of_mem (List.mem_of_getElem? at?)
      simp [differs, inductionHypothesis tailDistinct found]

/-- The address of a name in a module is where it stands there. -/
theorem Module.address?_eq_some_iff {module : Module} (distinct : module.unit.definedNames.Nodup)
    {name : String} {address : Address} :
    module.address? name = some address ↔ module.Defines address name := by
  obtain ⟨globalsDistinct, functionsDistinct, apart⟩ := List.nodup_append.mp distinct
  constructor
  · intro found
    refine ⟨Module.address?_module found, ?_⟩
    rcases Module.address?_cases found with ⟨kind, entry, at?, same⟩ | ⟨kind, function, at?, same⟩
    · simp only [kind, at?, Option.map_some, same]
    · simp only [kind, at?, Option.map_some, same]
  · obtain ⟨owner, kind, index⟩ := address
    rintro ⟨rfl, stands⟩
    unfold Module.address?
    cases kind with
    | global => rw [findIdx?_of_nodup globalsDistinct stands]
    | function =>
      have noGlobal : module.unit.globals.findIdx? (fun entry => entry.name = name) = none := by
        obtain ⟨function, at?, same⟩ := Option.map_eq_some_iff.mp stands
        rw [List.findIdx?_eq_none_iff]
        intro entry member
        have differs := apart _ (List.mem_map_of_mem member) _
          (List.mem_map_of_mem (List.mem_of_getElem? at?))
        rw [same] at differs
        exact decide_eq_false differs
      rw [noGlobal, findIdx?_of_nodup functionsDistinct stands]
    | initializer => exact stands.elim

/-- The first values of the variables of a unit, under their names. -/
def CodeUnit.constants (unit : CodeUnit) : Keyed Int64 :=
  unit.globals.map fun entry => (entry.name, entry.constant.getD 0)

theorem CodeUnit.names_constants (unit : CodeUnit) :
    unit.constants.map Prod.fst = unit.globals.map Code.Global.name := by
  unfold constants
  rw [List.map_map]
  rfl

namespace Machine

variable {machine : Machine} {name : String}

/-! ### Well-formed machines -/

theorem WellFormed.once (wellFormed : machine.WellFormed) {module : Module}
    (live : module ∈ machine.modules) : module.unit.definedNames.Nodup :=
  (List.nodup_flatMap.mp wellFormed.names).1 module live

/-- A name resolves to where it stands in a live module. -/
theorem WellFormed.resolve?_eq_some_iff (wellFormed : machine.WellFormed) {address : Address} :
    machine.resolve? name = some address ↔
      ∃ module ∈ machine.modules, module.Defines address name := by
  constructor
  · intro found
    obtain ⟨module, live, here⟩ := exists_of_resolve? found
    exact ⟨module, live, (Module.address?_eq_some_iff (wellFormed.once live)).mp here⟩
  · rintro ⟨module, live, stands⟩
    have here := (Module.address?_eq_some_iff (wellFormed.once live)).mpr stands
    have defined := (module.isSome_address?_iff name).mp (by rw [here]; rfl)
    rw [wellFormed.resolve?_eq live defined, here]

/-- The names of the stored variables are those that live modules have variables of. -/
theorem WellFormed.stored_iff (wellFormed : machine.WellFormed) :
    (machine.globalValue? name).isSome ↔
      ∃ module ∈ machine.modules, name ∈ module.unit.globals.map Code.Global.name := by
  rw [globalValue?, Option.isSome_iff_ne_none, Ne, GlobalStore.get?_eq_none_iff, not_not,
    wellFormed.globals, List.mem_flatMap]

theorem WellFormed.storedOnce (wellFormed : machine.WellFormed) :
    (machine.globals.map Prod.fst).Nodup := by
  rw [wellFormed.globals, List.nodup_flatMap]
  obtain ⟨once, apart⟩ := List.nodup_flatMap.mp wellFormed.names
  refine ⟨fun module live => (List.nodup_append.mp (once module live)).1, apart.imp ?_⟩
  intro first second disjoint name inFirst inSecond
  exact disjoint (List.mem_append_left _ inFirst) (List.mem_append_left _ inSecond)

/-! ### Calls -/

/-- The functions of all live modules by name, collected module by module. -/
def functionTable (machine : Machine) : Keyed Code.Function :=
  Keyed.setAll
    (machine.modules.flatMap fun module =>
      module.unit.functions.map fun function => (function.name, function)) []

/-- The function at the address of a name is the one that is collected under the name. -/
theorem WellFormed.functionTable_eq (wellFormed : machine.WellFormed) {address : Address}
    (found : machine.functionAddress? name = some address) :
    machine.functionTable.get? name = machine.functionAt? address := by
  obtain ⟨function, at?, same⟩ := wellFormed.functionAt?_of_functionAddress? found
  obtain ⟨-, module, live, inModule⟩ := module_of_functionAt? at?
  have listed : (name, function) ∈ machine.modules.flatMap fun module =>
      module.unit.functions.map fun function => (function.name, function) := by
    refine List.mem_flatMap.mpr ⟨module, mem_of_module? live, List.mem_map.mpr ⟨function, ?_, ?_⟩⟩
    · exact List.mem_of_getElem? inModule
    · rw [same]
  have distinct : ((machine.modules.flatMap fun module =>
      module.unit.functions.map fun function => (function.name, function)).map
        Prod.fst).Nodup := by
    rw [List.map_flatMap, List.nodup_flatMap]
    obtain ⟨once, apart⟩ := List.nodup_flatMap.mp wellFormed.names
    simp only [List.map_map]
    refine ⟨fun module live => (List.nodup_append.mp (once module live)).2.1, apart.imp ?_⟩
    intro first second disjoint name inFirst inSecond
    exact disjoint (List.mem_append_right _ inFirst) (List.mem_append_right _ inSecond)
  unfold functionTable
  rw [Keyed.get?_setAll distinct, (Keyed.get?_eq_some_iff distinct function).mpr listed, at?]
  rfl

/-- Only at the address of a function there stands a function. -/
theorem function?_eq (machine : Machine) (name : String) :
    machine.function? name = (machine.resolve? name).bind machine.functionAt? := by
  unfold function? functionAddress?
  cases machine.resolve? name with
  | none => rfl
  | some address =>
    obtain ⟨owner, kind, index⟩ := address
    cases kind <;> rfl

/-! ### Installing code -/

/-- The names of a new module are resolved to where they stand in it. -/
theorem resolve?_emit {unit : CodeUnit} {id : ModuleId} {grown : Machine}
    (emitted : machine.emit unit = .ok (id, grown)) (name : String) :
    grown.resolve? name = (Module.address? ⟨id, unit⟩ name).or (machine.resolve? name) := by
  obtain ⟨unique, rfl, rfl⟩ := emit_eq emitted
  obtain ⟨-, fresh⟩ := firstDuplicate?_eq_none unique
  have grownResolves : ∀ module, List.findSome? (fun other : Module => other.address? name)
      (machine.modules ++ [module]) = (machine.resolve? name).or (module.address? name) := by
    intro module
    rw [List.findSome?_append, List.findSome?_singleton]
    rfl
  unfold resolve?
  rw [grownResolves]
  cases here : Module.address? ⟨⟨machine.nextModule⟩, unit⟩ name with
  | none => exact Option.or_none
  | some address =>
    have defined := (Module.isSome_address?_iff ⟨⟨machine.nextModule⟩, unit⟩ name).mp
      (by rw [here]; rfl)
    rw [(fresh name defined).2]
    rfl

/-- The variables of a new module have their constants, and others keep their values. -/
theorem WellFormed.globalValue?_emit (wellFormed : machine.WellFormed) {unit : CodeUnit}
    {id : ModuleId} {grown : Machine} (emitted : machine.emit unit = .ok (id, grown))
    (name : String) :
    grown.globalValue? name = (unit.constants.get? name).or (machine.globalValue? name) := by
  obtain ⟨unique, rfl, rfl⟩ := emit_eq emitted
  obtain ⟨-, fresh⟩ := firstDuplicate?_eq_none unique
  have appended : Keyed.get? (machine.globals ++ unit.constants) name =
      (machine.globalValue? name).or (unit.constants.get? name) := by
    unfold Keyed.get?
    rw [List.find?_append, Option.map_or]
    rfl
  show Keyed.get? (machine.globals ++ unit.constants) name = _
  rw [appended]
  by_cases own : name ∈ unit.globals.map Code.Global.name
  · have notStored : machine.globalValue? name = none := by
      by_contra stored
      obtain ⟨module, live, inModule⟩ :=
        wellFormed.stored_iff.mp (Option.isSome_iff_ne_none.mpr stored)
      have defined : (machine.resolve? name).isSome := (isSome_resolve?_iff machine name).mpr
        (List.mem_flatMap.mpr ⟨module, live, List.mem_append_left _ inModule⟩)
      rw [(fresh name (List.mem_append_left _ own)).2] at defined
      cases defined
    rw [notStored, Option.none_or, Option.or_none]
  · rw [Keyed.get?_eq_none (unit.names_constants ▸ own), Option.none_or, Option.or_none]

/-! ### Removing code -/

theorem mem_symbolsOf_iff (wellFormed : machine.WellFormed) {id : ModuleId} {name : String} :
    name ∈ machine.symbolsOf id ↔
      ∃ module ∈ machine.modules, module.id = id ∧ name ∈ module.unit.definedNames := by
  unfold symbolsOf
  constructor
  · intro member
    cases found : machine.module? id with
    | none => simp [found] at member
    | some module =>
      rw [found] at member
      exact ⟨module, mem_of_module? found, id_of_module? found, member⟩
  · rintro ⟨module, live, rfl, member⟩
    rw [wellFormed.module?_of_mem live]
    exact member

theorem unload_limits (machine : Machine) (id : ModuleId) :
    (machine.unload id).limits = machine.limits := by
  unfold unload
  cases machine.module? id <;> rfl

/-- The names of a module lose their addresses when it is removed, and no others do. -/
theorem WellFormed.resolve?_unload (wellFormed : machine.WellFormed) (id : ModuleId) :
    (machine.unload id).resolve? name =
      if name ∈ machine.symbolsOf id then none else machine.resolve? name := by
  ext address
  rw [(wellFormed.unload id).resolve?_eq_some_iff, unload_modules]
  split
  · next owned =>
    obtain ⟨gone, goneLive, rfl, inGone⟩ := (mem_symbolsOf_iff wellFormed).mp owned
    simp only [reduceCtorEq, iff_false]
    rintro ⟨module, stays, stands⟩
    obtain ⟨live, other⟩ := List.mem_filter.mp stays
    have same := wellFormed.module_of_name live goneLive stands.defined inGone
    exact of_decide_eq_true other (by rw [same])
  · next foreign =>
    rw [wellFormed.resolve?_eq_some_iff]
    constructor
    · rintro ⟨module, stays, stands⟩
      exact ⟨module, (List.mem_filter.mp stays).1, stands⟩
    · rintro ⟨module, live, stands⟩
      refine ⟨module, List.mem_filter.mpr ⟨live, decide_eq_true fun same => ?_⟩, stands⟩
      exact foreign ((mem_symbolsOf_iff wellFormed).mpr ⟨module, live, same, stands.defined⟩)

/-- The variables of a module are gone when it is removed, and no others are. -/
theorem WellFormed.globalValue?_unload (wellFormed : machine.WellFormed) (id : ModuleId) :
    (machine.unload id).globalValue? name =
      if name ∈ machine.symbolsOf id then none else machine.globalValue? name := by
  by_cases owned : name ∈ machine.symbolsOf id
  · rw [if_pos owned]
    obtain ⟨module, live, rfl, defined⟩ := (mem_symbolsOf_iff wellFormed).mp owned
    by_contra stored
    have kept := (wellFormed.unload module.id).stored_iff.mp (Option.isSome_iff_ne_none.mpr stored)
    rw [unload_modules] at kept
    obtain ⟨other, stays, inOther⟩ := kept
    obtain ⟨otherLive, differs⟩ := List.mem_filter.mp stays
    have same := wellFormed.module_of_name otherLive live (List.mem_append_left _ inOther) defined
    exact of_decide_eq_true differs (by rw [same])
  · rw [if_neg owned]
    unfold Machine.unload globalValue?
    unfold symbolsOf at owned
    cases found : machine.module? id with
    | none => rfl
    | some module =>
      rw [found] at owned
      have notGlobal : name ∉ module.unit.globals.map Code.Global.name := fun member =>
        owned (List.mem_append_left _ member)
      have kept := Keyed.get?_filter machine.globals (module.unit.globals.map Code.Global.name) name
      rw [if_neg notGlobal] at kept
      exact kept

end Machine

/-! ## The table of symbols -/

/-- The addresses of what a unit defines when it is installed under the number, in the
order in which they are entered into the table. -/
def CodeUnit.addresses (unit : CodeUnit) (id : ModuleId) : Keyed Address :=
  (unit.globals.zipIdx.map fun entry => (entry.1.name, ⟨id, .global, entry.2⟩)) ++
    unit.functions.zipIdx.map fun entry => (entry.1.name, ⟨id, .function, entry.2⟩)

theorem CodeUnit.names_addresses (unit : CodeUnit) (id : ModuleId) :
    (unit.addresses id).map Prod.fst = unit.definedNames := by
  have names {α : Type} (view : α → String) (elements : List α) (kind : AddressKind) :
      ((elements.zipIdx.map fun entry => (view entry.1, (⟨id, kind, entry.2⟩ : Address))).map
        Prod.fst) = elements.map view := by
    rw [List.map_map]
    show elements.zipIdx.map (view ∘ Prod.fst) = _
    rw [← List.map_map, List.zipIdx_map_fst]
  unfold addresses definedNames
  rw [List.map_append, names Code.Global.name, names Code.Function.name]

/-- The addresses of a unit are those that its module gives to the names. -/
theorem CodeUnit.get?_addresses {unit : CodeUnit} (once : unit.definedNames.Nodup) (id : ModuleId)
    (name : String) : (unit.addresses id).get? name = Module.address? ⟨id, unit⟩ name := by
  have distinct : ((unit.addresses id).map Prod.fst).Nodup := by
    rw [unit.names_addresses]
    exact once
  ext address
  have defines := @Module.address?_eq_some_iff ⟨id, unit⟩ once name address
  rw [Keyed.get?_eq_some_iff distinct, defines]
  obtain ⟨owner, kind, index⟩ := address
  unfold addresses Module.Defines
  cases kind <;> simp [List.mem_zipIdx_iff_getElem?, Option.map_eq_some_iff] <;> grind

namespace Machine

/-- Takes a name out of the table if it stands in the module. -/
def retractName (id : ModuleId) (table : Keyed Address) (name : String) : Keyed Address :=
  if (table.get? name).map Address.module = some id then table.erase name else table

/-- Takes several names out of the table, those that stand in the module. -/
def retract (id : ModuleId) (names : List String) (table : Keyed Address) : Keyed Address :=
  names.foldl (retractName id) table

theorem get?_retractName (id : ModuleId) (table : Keyed Address) (gone name : String) :
    (retractName id table gone).get? name =
      if name = gone then (table.get? name).filter fun address => address.module ≠ id
      else table.get? name := by
  unfold retractName
  by_cases same : name = gone
  · subst same
    cases found : table.get? name with
    | none => simp [found]
    | some address =>
      by_cases here : address.module = id <;>
        simp [found, here, Keyed.get?_erase, Option.filter]
  · rw [if_neg same]
    split
    · rw [Keyed.get?_erase, if_neg same]
    · rfl

theorem get?_retract (id : ModuleId) (names : List String) (table : Keyed Address)
    (name : String) :
    (retract id names table).get? name =
      if name ∈ names then (table.get? name).filter fun address => address.module ≠ id
      else table.get? name := by
  induction names generalizing table with
  | nil => rfl
  | cons head tail inductionHypothesis =>
    show (retract id tail (retractName id table head)).get? name = _
    rw [inductionHypothesis, get?_retractName]
    by_cases here : name = head
    · simp only [here, if_true, List.mem_cons, true_or, Option.filter_filter, Bool.and_self]
      split <;> rfl
    · simp only [List.mem_cons, here, false_or, if_false]

end Machine

end IncrementalC
