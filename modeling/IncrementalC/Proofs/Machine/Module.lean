import Mathlib.Data.List.Flatten
import Mathlib.Data.List.Nodup
import IncrementalC.Machine.Module

/-!
Contract: modules and the names they define.

Owns: well-formed machines, that installing and removing code keeps machines well
formed, and what a name resolves to.

Does not own: running code.
-/

namespace IncrementalC

/-! ## Addresses in a module -/

theorem Module.address?_module {module : Module} {name : String} {address : Address}
    (found : module.address? name = some address) : address.module = module.id := by
  unfold Module.address? at found
  split at found
  · obtain rfl := Option.some.inj found
    rfl
  · split at found
    · obtain rfl := Option.some.inj found
      rfl
    · cases found

theorem Module.isSome_address?_iff (module : Module) (name : String) :
    (module.address? name).isSome ↔ name ∈ module.unit.definedNames := by
  unfold Module.address? CodeUnit.definedNames
  rw [List.mem_append, List.mem_map, List.mem_map]
  cases inGlobals : module.unit.globals.findIdx? fun entry => entry.name = name with
  | some index =>
    obtain ⟨inside, found, -⟩ := List.findIdx?_eq_some_iff_getElem.mp inGlobals
    have same : module.unit.globals[index].name = name := of_decide_eq_true found
    simp only [Option.isSome_some, true_iff]
    exact .inl ⟨_, List.getElem_mem inside, same⟩
  | none =>
    have absent := List.findIdx?_eq_none_iff.mp inGlobals
    cases inFunctions : module.unit.functions.findIdx? fun function => function.name = name with
    | some index =>
      obtain ⟨inside, found, -⟩ := List.findIdx?_eq_some_iff_getElem.mp inFunctions
      have same : module.unit.functions[index].name = name := of_decide_eq_true found
      simp only [Option.isSome_some, true_iff]
      exact .inr ⟨_, List.getElem_mem inside, same⟩
    | none =>
      have alsoAbsent := List.findIdx?_eq_none_iff.mp inFunctions
      simp only [Option.isSome_none, Bool.false_eq_true, false_iff, not_or]
      constructor
      · rintro ⟨entry, member, same⟩
        exact of_decide_eq_false (absent entry member) same
      · rintro ⟨function, member, same⟩
        exact of_decide_eq_false (alsoAbsent function member) same

/-- What stands at the address of a name has that name. -/
theorem Module.address?_cases {module : Module} {name : String} {address : Address}
    (found : module.address? name = some address) :
    (address.kind = .global ∧ ∃ entry, module.unit.globals[address.index]? = some entry ∧
        entry.name = name) ∨
      (address.kind = .function ∧ ∃ function,
        module.unit.functions[address.index]? = some function ∧ function.name = name) := by
  unfold Module.address? at found
  split at found
  · next index inGlobals =>
    obtain rfl := Option.some.inj found
    obtain ⟨inside, same, -⟩ := List.findIdx?_eq_some_iff_getElem.mp inGlobals
    exact .inl ⟨rfl, _, List.getElem?_eq_getElem inside, of_decide_eq_true same⟩
  · split at found
    · next index inFunctions =>
      obtain rfl := Option.some.inj found
      obtain ⟨inside, same, -⟩ := List.findIdx?_eq_some_iff_getElem.mp inFunctions
      exact .inr ⟨rfl, _, List.getElem?_eq_getElem inside, of_decide_eq_true same⟩
    · cases found

namespace Machine

/-! ## Well-formed machines -/

/-- The names that live modules define. -/
def definedNames (machine : Machine) : List String :=
  machine.modules.flatMap fun module => module.unit.definedNames

/-- Modules have numbers of their own, no name is defined twice, and there is storage
for the live variables. -/
structure WellFormed (machine : Machine) : Prop where
  numbered : ∀ module ∈ machine.modules, module.id.number < machine.nextModule
  distinct : (machine.modules.map Module.id).Nodup
  names : machine.definedNames.Nodup
  globals : machine.globals.map Prod.fst =
    machine.modules.flatMap fun module => module.unit.globals.map Code.Global.name

theorem wellFormed_new (limits : Limits) : (new limits).WellFormed where
  numbered _ member := absurd member List.not_mem_nil
  distinct := List.nodup_nil
  names := List.nodup_nil
  globals := rfl

variable {machine : Machine}

theorem mem_of_module? {id : ModuleId} {module : Module}
    (found : machine.module? id = some module) : module ∈ machine.modules :=
  List.mem_of_find?_eq_some found

theorem id_of_module? {id : ModuleId} {module : Module}
    (found : machine.module? id = some module) : module.id = id := by
  have same := List.find?_some found
  exact of_decide_eq_true same

namespace WellFormed

theorem module?_of_mem (wellFormed : machine.WellFormed) {module : Module}
    (member : module ∈ machine.modules) : machine.module? module.id = some module := by
  unfold module?
  have distinct := wellFormed.distinct
  generalize machine.modules = modules at member distinct
  induction modules with
  | nil => exact absurd member List.not_mem_nil
  | cons head tail inductionHypothesis =>
    obtain ⟨absent, tailDistinct⟩ := List.nodup_cons.mp distinct
    rw [List.find?_cons]
    rcases List.mem_cons.mp member with rfl | later
    · simp
    · have differs : head.id ≠ module.id := by
        intro same
        exact absent (same ▸ List.mem_map_of_mem later)
      simp only [differs, decide_false]
      exact inductionHypothesis later tailDistinct

/-- Two live modules with a common name are one. -/
theorem module_of_name (wellFormed : machine.WellFormed) {first second : Module}
    (firstLive : first ∈ machine.modules) (secondLive : second ∈ machine.modules) {name : String}
    (inFirst : name ∈ first.unit.definedNames) (inSecond : name ∈ second.unit.definedNames) :
    first = second := by
  have names := wellFormed.names
  unfold definedNames at names
  generalize machine.modules = modules at firstLive secondLive names
  induction modules with
  | nil => exact absurd firstLive List.not_mem_nil
  | cons head tail inductionHypothesis =>
    rw [List.flatMap_cons] at names
    obtain ⟨-, tailNames, apart⟩ := List.nodup_append.mp names
    rcases List.mem_cons.mp firstLive with rfl | firstLater
    · rcases List.mem_cons.mp secondLive with rfl | secondLater
      · rfl
      · exact absurd rfl (apart name inFirst name
          (List.mem_flatMap.mpr ⟨second, secondLater, inSecond⟩))
    · rcases List.mem_cons.mp secondLive with rfl | secondLater
      · exact absurd rfl (apart name inSecond name
          (List.mem_flatMap.mpr ⟨first, firstLater, inFirst⟩))
      · exact inductionHypothesis firstLater secondLater tailNames

end WellFormed

/-! ## Resolving names -/

theorem exists_of_resolve? {name : String} {address : Address}
    (found : machine.resolve? name = some address) :
    ∃ module ∈ machine.modules, module.address? name = some address :=
  List.exists_of_findSome?_eq_some found

theorem isSome_resolve?_iff (machine : Machine) (name : String) :
    (machine.resolve? name).isSome ↔ name ∈ machine.definedNames := by
  unfold resolve? definedNames
  rw [List.findSome?_isSome_iff, List.mem_flatMap]
  simp only [Module.isSome_address?_iff]

/-- A name resolves to what its module defines. -/
theorem WellFormed.resolve?_eq (wellFormed : machine.WellFormed) {module : Module}
    (live : module ∈ machine.modules) {name : String} (defined : name ∈ module.unit.definedNames) :
    machine.resolve? name = module.address? name := by
  have isSome : (machine.resolve? name).isSome :=
    (isSome_resolve?_iff machine name).mpr (List.mem_flatMap.mpr ⟨module, live, defined⟩)
  obtain ⟨address, found⟩ := Option.isSome_iff_exists.mp isSome
  obtain ⟨owner, ownerLive, inOwner⟩ := exists_of_resolve? found
  have ownerDefines := (owner.isSome_address?_iff name).mp (by rw [inOwner]; rfl)
  obtain rfl := wellFormed.module_of_name ownerLive live ownerDefines defined
  rw [found, inOwner]

theorem module_of_functionAt? {address : Address} {function : Code.Function}
    (found : machine.functionAt? address = some function) :
    address.kind = .function ∧ ∃ module, machine.module? address.module = some module ∧
      module.unit.functions[address.index]? = some function := by
  unfold functionAt? at found
  split at found
  · next kind => exact ⟨kind, Option.bind_eq_some_iff.mp found⟩
  · cases found
  · cases found

/-- The function that a name denotes stands in a live module. -/
theorem exists_of_function? {name : String} {function : Code.Function}
    (found : machine.function? name = some function) :
    ∃ module ∈ machine.modules, function ∈ module.unit.functions := by
  obtain ⟨address, -, at?⟩ := Option.bind_eq_some_iff.mp found
  obtain ⟨-, module, live, inModule⟩ := module_of_functionAt? at?
  exact ⟨module, mem_of_module? live, List.mem_of_getElem? inModule⟩

/-! ## Installing code -/

theorem firstDuplicate?_eq_none {seen names : List String}
    (unique : machine.firstDuplicate? seen names = none) :
    names.Nodup ∧ ∀ name ∈ names, name ∉ seen ∧ machine.resolve? name = none := by
  induction names generalizing seen with
  | nil => exact ⟨List.nodup_nil, fun _ member => absurd member List.not_mem_nil⟩
  | cons head tail inductionHypothesis =>
    unfold firstDuplicate? at unique
    split at unique
    · cases unique
    · next fresh =>
      obtain ⟨undefined, unseen⟩ := not_or.mp fresh
      obtain ⟨tailNodup, tailFresh⟩ := inductionHypothesis unique
      have headAbsent : head ∉ tail := by
        intro member
        exact (tailFresh head member).1 List.mem_cons_self
      refine ⟨List.nodup_cons.mpr ⟨headAbsent, tailNodup⟩, ?_⟩
      intro name member
      rcases List.mem_cons.mp member with rfl | later
      · exact ⟨unseen, by simpa using undefined⟩
      · obtain ⟨notSeen, notDefined⟩ := tailFresh name later
        exact ⟨fun inSeen => notSeen (List.mem_cons_of_mem head inSeen), notDefined⟩

theorem firstDuplicate?_of_nodup {seen names : List String}
    (distinct : (seen ++ names).Nodup) (free : ∀ name ∈ names, name ∉ machine.definedNames) :
    machine.firstDuplicate? seen names = none := by
  induction names generalizing seen with
  | nil => rfl
  | cons head tail inductionHypothesis =>
    have shifted : (head :: seen ++ tail).Nodup := List.perm_middle.nodup_iff.mp distinct
    have unseen : head ∉ seen := fun member =>
      (List.nodup_cons.mp shifted).1 (List.mem_append_left _ member)
    have undefined : ¬ (machine.resolve? head).isSome := by
      rw [isSome_resolve?_iff]
      exact free head List.mem_cons_self
    rw [firstDuplicate?, if_neg (not_or.mpr ⟨undefined, unseen⟩)]
    exact inductionHypothesis shifted fun name member => free name (List.mem_cons_of_mem _ member)

theorem emit_eq {unit : CodeUnit} {id : ModuleId} {grown : Machine}
    (emitted : machine.emit unit = .ok (id, grown)) :
    machine.firstDuplicate? [] unit.definedNames = none ∧ id = ⟨machine.nextModule⟩ ∧
      grown =
        { machine with
          modules := machine.modules ++ [⟨id, unit⟩],
          globals := machine.globals ++
            unit.globals.map fun entry => (entry.name, entry.constant.getD 0),
          nextModule := machine.nextModule + 1 } := by
  unfold emit at emitted
  split at emitted
  · cases emitted
  · next accepted =>
    obtain ⟨rfl, rfl⟩ := Prod.mk.inj (Except.ok.inj emitted)
    refine ⟨?_, rfl, rfl⟩
    unfold objection? at accepted
    split at accepted
    · cases accepted
    · assumption

theorem WellFormed.emit (wellFormed : machine.WellFormed) {unit : CodeUnit} {id : ModuleId}
    {grown : Machine} (emitted : machine.emit unit = .ok (id, grown)) : grown.WellFormed := by
  obtain ⟨unique, rfl, rfl⟩ := emit_eq emitted
  obtain ⟨nodup, fresh⟩ := firstDuplicate?_eq_none unique
  refine ⟨?_, ?_, ?_, ?_⟩
  · intro module member
    rcases List.mem_append.mp member with older | new
    · exact Nat.lt_succ_of_lt (wellFormed.numbered module older)
    · rw [List.mem_singleton.mp new]
      exact Nat.lt_succ_self _
  · simp only [List.map_append, List.map_cons, List.map_nil]
    refine List.nodup_append.mpr ⟨wellFormed.distinct, List.nodup_singleton _, ?_⟩
    intro old oldMember new newMember same
    obtain ⟨module, member, rfl⟩ := List.mem_map.mp oldMember
    have bound := wellFormed.numbered module member
    rw [same, List.mem_singleton.mp newMember] at bound
    exact Nat.lt_irrefl _ bound
  · simp only [definedNames, List.flatMap_append, List.flatMap_cons, List.flatMap_nil,
      List.append_nil]
    refine List.nodup_append.mpr ⟨wellFormed.names, nodup, ?_⟩
    rintro name old _ new rfl
    have defined := (isSome_resolve?_iff machine name).mpr old
    rw [(fresh name new).2] at defined
    cases defined
  · simp only [List.map_append, wellFormed.globals, List.flatMap_append, List.flatMap_cons,
      List.flatMap_nil, List.append_nil, List.map_map]
    rfl

/-! ## Removing code -/

private theorem flatMap_filter_apart {α : Type} (keep : α → Bool) (view : α → List String)
    (gone : List String) (elements : List α)
    (stays : ∀ element ∈ elements, keep element = true → ∀ name ∈ view element, name ∉ gone)
    (goes : ∀ element ∈ elements, keep element = false → ∀ name ∈ view element, name ∈ gone) :
    (elements.flatMap view).filter (fun name => decide (name ∉ gone)) =
      (elements.filter keep).flatMap view := by
  induction elements with
  | nil => rfl
  | cons head tail inductionHypothesis =>
    have rest := inductionHypothesis
      (fun element member => stays element (List.mem_cons_of_mem head member))
      (fun element member => goes element (List.mem_cons_of_mem head member))
    rw [List.flatMap_cons, List.filter_append, rest]
    cases kept : keep head with
    | true =>
      have all : (view head).filter (fun name => decide (name ∉ gone)) = view head := by
        rw [List.filter_eq_self]
        intro name member
        exact decide_eq_true (stays head List.mem_cons_self kept name member)
      rw [List.filter_cons_of_pos kept, List.flatMap_cons, all]
    | false =>
      have none : (view head).filter (fun name => decide (name ∉ gone)) = [] := by
        rw [List.filter_eq_nil_iff]
        intro name member
        simpa using goes head List.mem_cons_self kept name member
      rw [List.filter_cons_of_neg (by rw [kept]; exact Bool.false_ne_true), none, List.nil_append]

theorem unload_modules (machine : Machine) (id : ModuleId) :
    (machine.unload id).modules = machine.modules.filter fun other => other.id ≠ id := by
  unfold unload
  cases found : machine.module? id with
  | some module => rfl
  | none =>
    refine (List.filter_eq_self.mpr ?_).symm
    intro module member
    have differs := List.find?_eq_none.mp found module member
    simpa using differs

theorem unload_nextModule (machine : Machine) (id : ModuleId) :
    (machine.unload id).nextModule = machine.nextModule := by
  unfold unload
  cases machine.module? id <;> rfl

theorem WellFormed.unload (wellFormed : machine.WellFormed) (id : ModuleId) :
    (machine.unload id).WellFormed := by
  have fewer : (machine.unload id).modules.Sublist machine.modules := by
    rw [unload_modules]
    exact List.filter_sublist
  refine ⟨?_, wellFormed.distinct.sublist (fewer.map _), ?_, ?_⟩
  · intro module member
    rw [unload_nextModule]
    exact wellFormed.numbered module (fewer.subset member)
  · exact wellFormed.names.sublist (fewer.flatMap _)
  · rw [unload_modules]
    unfold Machine.unload
    cases found : machine.module? id with
    | none =>
      have all : machine.modules.filter (fun other => other.id ≠ id) = machine.modules := by
        rw [List.filter_eq_self]
        intro module member
        simpa using List.find?_eq_none.mp found module member
      rw [all]
      exact wellFormed.globals
    | some gone =>
      have goneLive := mem_of_module? found
      have goneId := id_of_module? found
      have apart := flatMap_filter_apart (fun other : Module => decide (other.id ≠ id))
        (fun module => module.unit.globals.map Code.Global.name)
        (gone.unit.globals.map Code.Global.name) machine.modules ?_ ?_
      · rw [← wellFormed.globals] at apart
        rw [← apart, List.filter_map]
        rfl
      · intro module member kept name inModule inGone
        have same := wellFormed.module_of_name member goneLive
          (List.mem_append_left _ inModule) (List.mem_append_left _ inGone)
        rw [same, goneId] at kept
        simp at kept
      · intro module member dropped name inModule
        have sameId : module.id = id := by simpa using dropped
        have again := wellFormed.module?_of_mem member
        rw [sameId, found] at again
        obtain rfl := Option.some.inj again
        exact inModule

/-- Removing a module right after it was installed leaves nothing of it but its number. -/
theorem WellFormed.unload_emit (wellFormed : machine.WellFormed) {unit : CodeUnit} {id : ModuleId}
    {grown : Machine} (emitted : machine.emit unit = .ok (id, grown)) :
    grown.unload id = { machine with nextModule := machine.nextModule + 1 } := by
  have grownWellFormed := wellFormed.emit emitted
  obtain ⟨unique, rfl, rfl⟩ := emit_eq emitted
  have live := grownWellFormed.module?_of_mem (List.mem_append_right _ (List.mem_singleton_self _))
  have modules : (machine.modules ++ [(⟨⟨machine.nextModule⟩, unit⟩ : Module)]).filter
      (fun other => other.id ≠ (⟨machine.nextModule⟩ : ModuleId)) = machine.modules := by
    rw [List.filter_append, List.filter_eq_self.mpr, List.filter_cons_of_neg (by simp)]
    · exact List.append_nil _
    · intro module member
      refine decide_eq_true fun same => ?_
      have below := wellFormed.numbered module member
      rw [same] at below
      exact Nat.lt_irrefl _ below
  have globals : (machine.globals ++
      unit.globals.map fun entry => (entry.name, entry.constant.getD 0)).filter
        (fun entry => entry.1 ∉ unit.globals.map Code.Global.name) = machine.globals := by
    rw [List.filter_append, List.filter_eq_self.mpr, List.filter_eq_nil_iff.mpr]
    · exact List.append_nil _
    · intro entry member
      obtain ⟨own, listed, rfl⟩ := List.mem_map.mp member
      simpa using List.mem_map_of_mem listed
    · intro entry member
      refine decide_eq_true fun new => ?_
      obtain ⟨-, fresh⟩ := firstDuplicate?_eq_none unique
      have undefined := (fresh entry.1 (List.mem_append_left _ new)).2
      have owned : entry.1 ∈ machine.definedNames := by
        have named := List.mem_map_of_mem (f := Prod.fst) member
        rw [wellFormed.globals] at named
        obtain ⟨module, installed, defines⟩ := List.mem_flatMap.mp named
        exact List.mem_flatMap.mpr ⟨module, installed, List.mem_append_left _ defines⟩
      have defined := (isSome_resolve?_iff machine entry.1).mpr owned
      rw [undefined] at defined
      cases defined
  unfold Machine.unload
  rw [live]
  dsimp only
  rw [modules, globals]

/-! ## Running -/

/-- `after` is `before` with other values of its variables. -/
structure Continues (before after : Machine) : Prop where
  same : after = { before with globals := after.globals }
  globals : after.globals.map Prod.fst = before.globals.map Prod.fst

namespace Continues

variable {before between after : Machine}

theorem refl (machine : Machine) : machine.Continues machine := ⟨rfl, rfl⟩

theorem modules (continues : before.Continues after) : after.modules = before.modules := by
  rw [continues.same]

theorem nextModule (continues : before.Continues after) :
    after.nextModule = before.nextModule := by
  rw [continues.same]

theorem trans (first : before.Continues between) (second : between.Continues after) :
    before.Continues after where
  same := by
    rw [second.same, first.same]
  globals := second.globals.trans first.globals

theorem resolve? (continues : before.Continues after) (name : String) :
    after.resolve? name = before.resolve? name := by
  unfold Machine.resolve?
  rw [continues.modules]

theorem module? (continues : before.Continues after) (id : ModuleId) :
    after.module? id = before.module? id := by
  unfold Machine.module?
  rw [continues.modules]

theorem referencesAt (continues : before.Continues after) (address : Address) :
    after.referencesAt address = before.referencesAt address := by
  unfold Machine.referencesAt
  rw [continues.module?]

theorem initializersOf (continues : before.Continues after) (id : ModuleId) :
    after.initializersOf id = before.initializersOf id := by
  unfold Machine.initializersOf
  rw [continues.module?]

theorem wellFormed (continues : before.Continues after) (wellFormed : before.WellFormed) :
    after.WellFormed where
  numbered module member := by
    rw [continues.nextModule]
    exact wellFormed.numbered module (continues.modules ▸ member)
  distinct := by
    rw [continues.modules]
    exact wellFormed.distinct
  names := by
    unfold definedNames
    rw [continues.modules]
    exact wellFormed.names
  globals := by
    rw [continues.globals, continues.modules]
    exact wellFormed.globals

end Continues

end Machine

end IncrementalC
