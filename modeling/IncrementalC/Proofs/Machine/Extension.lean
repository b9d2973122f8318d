import IncrementalC.Proofs.Engine.Binding
import IncrementalC.Proofs.Machine.Hosting

/-!
Contract: modules that running code does not reach change nothing of the run.

A name is looked up among the older modules first. So code that reaches none of the names that
newer modules define runs alike without them, and leaves their variables as they are.

Owns: machines with more modules, and runs on them.

Does not own: where the newer modules come from.
-/

namespace IncrementalC.Machine

open Code (Use)

/-! ## More variables -/

namespace GlobalStore

variable {store more : GlobalStore} {name : String}

theorem get?_append (absent : name ∉ more.map Prod.fst) :
    get? (store ++ more) name = get? store name := by
  have none : get? more name = none := get?_eq_none_iff.mpr absent
  unfold get? at none ⊢
  rw [List.find?_append, Option.map_or, none, Option.or_none]

theorem contains_append (absent : name ∉ more.map Prod.fst) :
    contains (store ++ more) name = contains store name := by
  have none : contains more name = false :=
    Bool.eq_false_iff.mpr fun stored => absent (contains_iff.mp stored)
  unfold contains at none ⊢
  rw [List.any_append, none, Bool.or_false]

theorem assign_append (absent : name ∉ more.map Prod.fst) (value : Int64) :
    assign (store ++ more) name value = assign store name value ++ more := by
  unfold assign
  rw [List.map_append]
  congr 1
  conv_rhs => rw [← List.map_id more]
  refine List.map_congr_left fun entry member => if_neg ?_
  rintro rfl
  exact absent (List.mem_map_of_mem member)

end GlobalStore

/-! ## More modules -/

/-- Newer modules with their variables, and the number of the next module. -/
structure Addition where
  modules : List Module
  globals : GlobalStore
  nextModule : Nat

/-- The names that the newer modules define. -/
def Addition.names (addition : Addition) : List String :=
  addition.modules.flatMap fun module => module.unit.definedNames

/-- The machine with newer modules behind its own. -/
def extend (machine : Machine) (addition : Addition) : Machine :=
  { machine with
    modules := machine.modules ++ addition.modules
    globals := machine.globals ++ addition.globals
    nextModule := addition.nextModule }

section

variable {machine : Machine} {addition : Addition}

theorem module?_extend {id : ModuleId} (live : machine.isLive id = true) :
    (machine.extend addition).module? id = machine.module? id := by
  obtain ⟨module, found⟩ := Option.isSome_iff_exists.mp live
  unfold module? at found ⊢
  rw [extend, List.find?_append, found, Option.some_or]

theorem resolve?_extend {name : String} (apart : name ∉ addition.names) :
    (machine.extend addition).resolve? name = machine.resolve? name := by
  have none : addition.modules.findSome? (fun module => module.address? name) = none := by
    rw [List.findSome?_eq_none_iff]
    intro module member
    rw [← Option.not_isSome_iff_eq_none, Module.isSome_address?_iff]
    exact fun defined => apart (List.mem_flatMap.mpr ⟨module, member, defined⟩)
  unfold resolve?
  rw [extend, List.findSome?_append, none, Option.or_none]

theorem functionAddress?_extend {name : String} (apart : name ∉ addition.names) :
    (machine.extend addition).functionAddress? name = machine.functionAddress? name := by
  unfold functionAddress?
  rw [resolve?_extend apart]

theorem isLive_of_resolve? {name : String} {address : Address}
    (found : machine.resolve? name = some address) : machine.isLive address.module = true := by
  obtain ⟨module, live, denotes⟩ := exists_of_resolve? found
  rw [Module.address?_module denotes, isLive, module?, List.find?_isSome]
  exact ⟨module, live, decide_eq_true rfl⟩

theorem function?_extend {name : String} (apart : name ∉ addition.names) :
    (machine.extend addition).function? name = machine.function? name := by
  unfold function?
  rw [functionAddress?_extend apart]
  cases found : machine.functionAddress? name with
  | none => rfl
  | some address =>
    have live := isLive_of_resolve? (Option.filter_eq_some_iff.mp found).1
    simp only [Option.bind_some, functionAt?, module?_extend live]

/-- What a module defines anew is not defined before. -/
theorem WellFormed.resolve?_of_mem_names (wellFormed : (machine.extend addition).WellFormed)
    {name : String} (added : name ∈ addition.names) : machine.resolve? name = none := by
  have apart := wellFormed.names
  unfold definedNames extend at apart
  rw [List.flatMap_append] at apart
  rw [← Option.not_isSome_iff_eq_none, isSome_resolve?_iff]
  exact fun defined => (List.disjoint_of_nodup_append apart) defined added

/-- The variables behind those of the machine are those of the newer modules. -/
theorem WellFormed.names_of_globals (wellFormed : machine.WellFormed)
    (extended : (machine.extend addition).WellFormed) :
    ∀ name ∈ addition.globals.map Prod.fst, name ∈ addition.names := by
  have stored := extended.globals
  simp only [extend, List.map_append, List.flatMap_append, wellFormed.globals] at stored
  rw [List.append_cancel_left stored]
  intro name member
  obtain ⟨module, live, own⟩ := List.mem_flatMap.mp member
  exact List.mem_flatMap.mpr ⟨module, live, List.mem_append_left _ own⟩

end

/-! ## Emitting -/

section

variable (machine : Machine) (globals : GlobalStore)

theorem firstDuplicate?_withGlobals (seen names : List String) :
    ({ machine with globals } : Machine).firstDuplicate? seen names =
      machine.firstDuplicate? seen names := by
  induction names generalizing seen with
  | nil => rfl
  | cons name rest inductionHypothesis =>
    unfold firstDuplicate?
    rw [inductionHypothesis]
    rfl

/-- Whether a unit can be emitted does not depend on what the variables hold. -/
theorem objection?_withGlobals (unit : CodeUnit) :
    ({ machine with globals } : Machine).objection? unit = machine.objection? unit := by
  unfold objection?
  rw [firstDuplicate?_withGlobals]

end

/-! ## Running -/

section

variable {σ : Type} {machine : Machine} {addition : Addition} {services : Services σ}

/-- The state with the variables of the newer modules. -/
def Addition.view (addition : Addition) (state : State σ) : State σ :=
  { state with globals := state.globals ++ addition.globals }

/-- Uses of other names go alike on both machines. -/
theorem mirrored_extend {permitted : Use → Prop}
    (apart : ∀ use, permitted use → use.name ∉ addition.names)
    (owned : ∀ name ∈ addition.globals.map Prod.fst, name ∈ addition.names)
    (closed : ∀ name function, permitted (.call name) → machine.function? name = some function →
      ∀ use ∈ Code.Statement.listUses function.body, permitted use) :
    Mirrored (fun _ => False) addition.view permitted machine services
      (machine.extend addition) services where
  rounds := rfl
  read name use _ := GlobalStore.get?_append fun stored => apart _ use (owned name stored)
  write name use state := by
    have absent : name ∉ addition.globals.map Prod.fst := fun stored =>
      apart _ use (owned name stored)
    refine ⟨GlobalStore.contains_append absent, fun value => ?_⟩
    simp only [Addition.view, GlobalStore.assign_append absent]
  called name use := function?_extend (apart _ use)
  native name _ _ arguments := by
    refine .of_eq fun state => ?_
    simp only [callNative, Addition.view]
    rcases services.callNative name arguments state.host with ⟨_ | _, after⟩ <;> rfl
  register name use argument := by
    have same : (machine.extend addition).functionAddress? name = machine.functionAddress? name :=
      functionAddress?_extend (apart _ use)
    refine .of_eq fun state => ?_
    simp only [registerAtExit, same]
    cases machine.functionAddress? name <;> rfl
  closed := closed

theorem conclude_extend (result : EStateM.Result Stop (State σ) Value) :
    (machine.extend addition).conclude (seen addition.view result) =
      ((machine.conclude result).1, (machine.conclude result).2.1.extend addition,
        (machine.conclude result).2.2) := by
  cases result <;> rfl

/-- A function that reaches no name of the newer modules runs alike on both machines. -/
theorem run_extend (wellFormed : machine.WellFormed)
    (extended : (machine.extend addition).WellFormed) {address : Address}
    (kind : address.kind = .function) (live : machine.isLive address.module = true)
    (apart : ∀ name, machine.Reaches [address] name → machine.resolve? name = none →
      name ∉ addition.names) (services : Services σ) (arguments : List Value) (host : σ) :
    (machine.extend addition).run services address arguments host =
      ((machine.run services address arguments host).1,
        (machine.run services address arguments host).2.1.extend addition,
        (machine.run services address arguments host).2.2) := by
  have mirrored : Mirrored (fun _ => False) addition.view (machine.Makes [address]) machine
      services (machine.extend addition) services := by
    refine mirrored_extend (fun use made added => ?_) (wellFormed.names_of_globals extended)
      fun name function made called => made.call called
    exact apart use.name made.reaches (extended.resolve?_of_mem_names added) added
  have mirrors := runThrough_mirrors mirrored
    (invoke_mirrors mirrored rfl machine.limits.callDepth) address (module?_extend live)
    (fun use used => ⟨address, .inl (List.mem_singleton_self _), used⟩)
    (fun stored => by rw [kind] at stored; cases stored) arguments
  rw [run_eq_conclude, run_eq_conclude, ← conclude_extend, runAt_eq, runAt_eq]
  exact congrArg (machine.extend addition).conclude (mirrors.eq ⟨machine.globals, host⟩)

end

end IncrementalC.Machine
