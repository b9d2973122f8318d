import IncrementalC.Proofs.Engine.Search

/-!
Contract: why running code fails for lack of a name.

A name may be provided and still not fit its use: variables are read and written,
generated functions are registered, and calls need a generated function or a native one
whose address is not null. Code fails for lack of a name at such a use only, and at such
a use it always fails.

Owns: the uses that code reaches, the uses that fail, and that runs fail at them only.

Does not own: whether names are provided.
-/

namespace IncrementalC

/-! ## Uses and names -/

namespace Code

mutual

theorem Expression.names_eq : ∀ expression : Expression,
    expression.names = expression.uses.map Use.name
  | .integer _ | .slot _ | .global _ => rfl
  | .assignSlot _ value => Expression.names_eq value
  | .assignGlobal name value => congrArg (name :: ·) (Expression.names_eq value)
  | .call callee arguments => congrArg (callee :: ·) (Expression.listNames_eq arguments)
  | .atExit function argument => congrArg (function :: ·) (Expression.names_eq argument)
  | .unary _ operand => Expression.names_eq operand
  | .binary _ left right | .and left right | .or left right => by
    simp only [Expression.names, Expression.uses, List.map_append]
    rw [Expression.names_eq left, Expression.names_eq right]

theorem Expression.listNames_eq : ∀ expressions : List Expression,
    Expression.listNames expressions = (Expression.listUses expressions).map Use.name
  | [] => rfl
  | head :: tail => by
    simp only [Expression.listNames, Expression.listUses, List.map_append]
    rw [Expression.names_eq head, Expression.listNames_eq tail]

end

mutual

theorem Statement.names_eq : ∀ statement : Statement,
    statement.names = statement.uses.map Use.name
  | .evaluate value | .store _ value | .leave (some value) => Expression.names_eq value
  | .leave none => rfl
  | .choose condition whenTrue whenFalse => by
    simp only [Statement.names, Statement.uses, List.map_append]
    rw [Expression.names_eq condition, Statement.listNames_eq whenTrue,
      Statement.listNames_eq whenFalse]
  | .loop condition body => by
    simp only [Statement.names, Statement.uses, List.map_append]
    rw [Expression.names_eq condition, Statement.listNames_eq body]

theorem Statement.listNames_eq : ∀ statements : List Statement,
    Statement.listNames statements = (Statement.listUses statements).map Use.name
  | [] => rfl
  | head :: tail => by
    simp only [Statement.listNames, Statement.listUses, List.map_append]
    rw [Statement.names_eq head, Statement.listNames_eq tail]

end

end Code

namespace Machine

open Code (Use)

variable {machine : Machine} {roots : List Address}

theorem name_mem_referencesAt {address : Address} {use : Use}
    (used : use ∈ machine.usesAt address) : use.name ∈ machine.referencesAt address := by
  unfold usesAt at used
  unfold referencesAt
  cases found : machine.module? address.module with
  | none =>
    rw [found] at used
    exact absurd used List.not_mem_nil
  | some module =>
    simp only [found] at used ⊢
    cases kind : address.kind with
    | global =>
      simp only [kind] at used
      exact absurd used List.not_mem_nil
    | function =>
      simp only [kind] at used ⊢
      cases at? : module.unit.functions[address.index]? with
      | none =>
        rw [at?] at used
        exact absurd used List.not_mem_nil
      | some function =>
        simp only [at?, Option.map_some, Option.getD_some] at used ⊢
        unfold Code.Function.references
        rw [NameSet.mem_ofNames, Code.Statement.listNames_eq]
        exact List.mem_map_of_mem used
    | initializer =>
      simp only [kind] at used ⊢
      cases at? : module.unit.initializers[address.index]? with
      | none =>
        rw [at?] at used
        exact absurd used List.not_mem_nil
      | some initializer =>
        simp only [at?, Option.map_some, Option.getD_some] at used ⊢
        unfold Code.Initializer.references
        rw [NameSet.mem_ofNames, Code.Expression.names_eq]
        rcases List.mem_cons.mp used with rfl | inValue
        · exact List.mem_cons_self
        · exact List.mem_cons_of_mem _ (List.mem_map_of_mem inValue)

/-- The code at the roots, or code that it reaches by name, makes the use. -/
def Makes (machine : Machine) (roots : List Address) (use : Use) : Prop :=
  ∃ address, (address ∈ roots ∨
    ∃ name, machine.Reaches roots name ∧ machine.resolve? name = some address) ∧
    use ∈ machine.usesAt address

/-- Names of uses are reached. -/
theorem Makes.reaches {use : Use} (made : machine.Makes roots use) :
    machine.Reaches roots use.name := by
  obtain ⟨address, root | ⟨between, reached, found⟩, used⟩ := made
  · exact .uses root (name_mem_referencesAt used)
  · exact .through reached found (name_mem_referencesAt used)

/-- A called function makes its uses. -/
theorem Makes.call {name : String} {function : Code.Function}
    (made : machine.Makes roots (.call name)) (called : machine.function? name = some function) :
    ∀ use ∈ Code.Statement.listUses function.body, machine.Makes roots use := by
  intro use member
  obtain ⟨address, isFunction, stands⟩ := Option.bind_eq_some_iff.mp called
  obtain ⟨found, kind⟩ := Option.filter_eq_some_iff.mp isFunction
  have kind := of_decide_eq_true kind
  refine ⟨address, .inr ⟨name, made.reaches, found⟩, ?_⟩
  simp only [functionAt?, kind, Option.bind_eq_some_iff] at stands
  obtain ⟨module, live, at?⟩ := stands
  unfold usesAt
  simp only [live, kind, at?]
  exact member

/-- Every name that is reached from one of several roots is reached from all of them. -/
theorem Reaches.mono {fewer : List Address} {name : String} (reached : machine.Reaches fewer name)
    (sub : ∀ root ∈ fewer, root ∈ roots) : machine.Reaches roots name := by
  induction reached with
  | uses start used => exact .uses (sub _ start) used
  | through _ found used inductionHypothesis => exact .through inductionHypothesis found used

end Machine

/-! ## Uses that fail -/

/-- The use fails for lack of `missing`. -/
def Code.Use.FailsFor (machine : Machine) (resolver : Resolver) (missing : String) :
    Code.Use → Prop
  | .read name | .write name =>
    missing = name ∧ ∀ address, machine.resolve? name = some address → address.kind ≠ .global
  | .register name => missing = name ∧ machine.functionAddress? name = none
  | .call name =>
    machine.function? name = none ∧
      (missing = name ∧ resolver.native? name = none ∨
        resolver.native? name = some (.foreign missing none))

namespace Machine

open Code (Use)

/-- There is storage for everything that a name denotes as a variable. -/
theorem WellFormed.storage {machine : Machine} (wellFormed : machine.WellFormed) {name : String}
    {address : Address} (found : machine.resolve? name = some address)
    (kind : address.kind = .global) : name ∈ machine.globals.map Prod.fst := by
  obtain ⟨module, live, here⟩ := exists_of_resolve? found
  rcases Module.address?_cases here with ⟨-, entry, at?, same⟩ | ⟨other, -⟩
  · rw [wellFormed.globals]
    refine List.mem_flatMap.mpr ⟨module, live, ?_⟩
    exact List.mem_map.mpr ⟨entry, List.mem_of_getElem? at?, same⟩
  · rw [kind] at other
    cases other

/-- Whatever has storage is what its name denotes. -/
theorem WellFormed.storage_iff {machine : Machine} (wellFormed : machine.WellFormed)
    {name : String} : name ∈ machine.globals.map Prod.fst ↔
      ∃ address, machine.resolve? name = some address ∧ address.kind = .global := by
  constructor
  · intro stored
    rw [wellFormed.globals, List.mem_flatMap] at stored
    obtain ⟨module, live, own⟩ := stored
    have defined : name ∈ module.unit.definedNames := List.mem_append_left _ own
    have found := wellFormed.resolve?_eq live defined
    obtain ⟨entry, member, rfl⟩ := List.mem_map.mp own
    unfold Module.address? at found
    cases index : module.unit.globals.findIdx? fun other => other.name = entry.name with
    | none =>
      have absent := List.findIdx?_eq_none_iff.mp index entry member
      exact absurd rfl (of_decide_eq_false absent)
    | some position =>
      rw [index] at found
      exact ⟨_, found, rfl⟩
  · rintro ⟨address, found, kind⟩
    exact wellFormed.storage found kind

end Machine

/-! ## Making a use -/

namespace Machine

variable {machine : Machine} {host : HostState} {owner : AtExitOwner}
  {origin : Option DeclarationId} {state : State HostState} {missing : String}

/-- Makes a single use, with the values that it takes. -/
def make {σ : Type} (machine : Machine) (services : Services σ) :
    Code.Use → List Int64 → Run (State σ) Unit
  | .read name, _ => do
    let _ ← readGlobal name
  | .write name, values => writeGlobal name (values.headD 0)
  | .call name, values => do
    let _ ← (machine.linkage services (machine.invoke services machine.limits.callDepth)).call
      name values
  | .register name, values => machine.registerAtExit services name (values.headD 0)

/-- The computation fails for lack of `missing`. -/
def FailsFor {S α : Type} (computation : Run S α) (missing : String) (state : S) : Prop :=
  ∃ after, computation state = .error (.fault (.unresolved missing)) after

theorem failsFor_discard {S α : Type} {computation : Run S α} {state : S} :
    FailsFor (do let _ ← computation) missing state ↔ FailsFor computation missing state := by
  unfold FailsFor
  change (∃ after, EStateM.bind computation (fun _ => pure ()) state = _) ↔ _
  unfold EStateM.bind
  cases computation state with
  | ok value after =>
    constructor
    · rintro ⟨_, absent⟩
      cases absent
    · rintro ⟨_, absent⟩
      cases absent
  | error stop after =>
    constructor
    · rintro ⟨_, ⟨⟩⟩
      exact ⟨after, rfl⟩
    · rintro ⟨_, ⟨⟩⟩
      exact ⟨after, rfl⟩

theorem read_failsFor_iff (wellFormed : machine.WellFormed) (runsOn : RunsOn machine host state)
    (name : String) : FailsFor (readGlobal name) missing state ↔
      (Code.Use.read name).FailsFor machine host.resolver missing := by
  have absent_iff : state.globals.get? name = none ↔
      ∀ address, machine.resolve? name = some address → address.kind ≠ .global := by
    rw [GlobalStore.get?_eq_none_iff, runsOn.1, wellFormed.storage_iff]
    simp
  unfold FailsFor
  cases value : state.globals.get? name with
  | some value =>
    rw [readGlobal_stored value]
    rw [value] at absent_iff
    constructor
    · rintro ⟨_, absent⟩
      cases absent
    · rintro ⟨_, unfit⟩
      cases absent_iff.mpr unfit
  | none =>
    rw [readGlobal_absent value]
    constructor
    · rintro ⟨_, ⟨⟩⟩
      exact ⟨rfl, absent_iff.mp value⟩
    · rintro ⟨rfl, -⟩
      exact ⟨state, rfl⟩

theorem write_failsFor_iff (wellFormed : machine.WellFormed) (runsOn : RunsOn machine host state)
    (name : String) (value : Int64) : FailsFor (writeGlobal name value) missing state ↔
      (Code.Use.write name).FailsFor machine host.resolver missing := by
  have stored_iff : state.globals.contains name = true ↔
      ∃ address, machine.resolve? name = some address ∧ address.kind = .global := by
    rw [GlobalStore.contains_iff, runsOn.1, wellFormed.storage_iff]
  unfold FailsFor
  by_cases stored : state.globals.contains name
  · rw [writeGlobal_stored stored]
    obtain ⟨address, found, kind⟩ := stored_iff.mp stored
    constructor
    · rintro ⟨_, absent⟩
      cases absent
    · rintro ⟨-, unfit⟩
      exact absurd kind (unfit address found)
  · rw [writeGlobal_absent stored]
    constructor
    · rintro ⟨_, ⟨⟩⟩
      refine ⟨rfl, ?_⟩
      intro address found kind
      exact stored (stored_iff.mpr ⟨address, found, kind⟩)
    · rintro ⟨rfl, -⟩
      exact ⟨state, rfl⟩

theorem register_failsFor_iff (name : String) (argument : Int64) :
    FailsFor (machine.registerAtExit (hostServices owner origin) name argument) missing state ↔
      (Code.Use.register name).FailsFor machine host.resolver missing := by
  unfold FailsFor Code.Use.FailsFor registerAtExit
  cases found : machine.functionAddress? name with
  | none =>
    constructor
    · rintro ⟨_, ⟨⟩⟩
      exact ⟨rfl, found⟩
    · rintro ⟨rfl, -⟩
      exact ⟨state, rfl⟩
  | some address =>
    constructor
    · rintro ⟨_, absent⟩
      cases absent
    · rintro ⟨-, absent⟩
      rw [found] at absent
      cases absent

theorem NativeFunction.call_unresolved_iff (missing : String) (function : NativeFunction)
    (arguments : List Int64) (trace : Trace) :
    (function.call arguments trace).1 = .error (.unresolved missing) ↔
      function = .foreign missing none := by
  unfold NativeFunction.call
  split
  · constructor <;> exact fun absent => by cases absent
  · next name =>
    constructor
    · rintro ⟨⟩
      rfl
    · rintro ⟨⟩
      rfl
  · split
    · constructor <;> exact fun absent => by cases absent
    · constructor <;> exact fun absent => by cases absent

theorem native_failsFor_iff (runsOn : RunsOn machine host state) {name : String}
    (undefined : machine.function? name = none) (arguments : List Int64) :
    FailsFor (callNative (hostServices owner origin) name arguments) missing state ↔
      (Code.Use.call name).FailsFor machine host.resolver missing := by
  have answer : (state.host.resolver.resolve name state.host.trace).1 =
      host.resolver.native? name := by
    rw [Resolver.resolve_fst, runsOn.2.resolver.native?_eq]
  unfold FailsFor Code.Use.FailsFor callNative
  simp only [hostServices, undefined, true_and]
  rcases resolved : state.host.resolver.resolve name state.host.trace with
    ⟨_ | function, resolver, trace⟩
  · rw [resolved] at answer
    dsimp only at answer
    rw [← answer]
    constructor
    · rintro ⟨_, ⟨⟩⟩
      exact .inl ⟨rfl, rfl⟩
    · rintro (⟨rfl, -⟩ | absent)
      · exact ⟨_, rfl⟩
      · cases absent
  · rw [resolved] at answer
    dsimp only at answer
    rw [← answer]
    have call_iff := NativeFunction.call_unresolved_iff missing function arguments trace
    dsimp only
    rcases called : function.call arguments trace with ⟨fault | value, after⟩
    · rw [called] at call_iff
      constructor
      · rintro ⟨_, ⟨⟩⟩
        exact .inr (congrArg some (call_iff.mp rfl))
      · rintro (⟨-, absent⟩ | same)
        · cases absent
        · obtain rfl := Except.error.inj (call_iff.mpr (Option.some.inj same))
          exact ⟨_, rfl⟩
    · rw [called] at call_iff
      constructor
      · rintro ⟨_, absent⟩
        cases absent
      · rintro (⟨-, absent⟩ | same)
        · cases absent
        · cases call_iff.mpr (Option.some.inj same)

/-- A use that is made fails by itself exactly if it is one that fails. -/
theorem make_failsFor_iff (wellFormed : machine.WellFormed) (runsOn : RunsOn machine host state)
    {use : Code.Use} (own : ∀ name, use = .call name → machine.function? name = none)
    (values : List Int64) :
    FailsFor (machine.make (hostServices owner origin) use values) missing state ↔
      use.FailsFor machine host.resolver missing := by
  cases use with
  | read name => exact failsFor_discard.trans (read_failsFor_iff wellFormed runsOn name)
  | write name => exact write_failsFor_iff wellFormed runsOn name _
  | register name => exact register_failsFor_iff name _
  | call name =>
    have undefined := own name rfl
    apply failsFor_discard.trans
    simp only [linkage, undefined]
    exact native_failsFor_iff runsOn undefined values

end Machine

/-! ## Runs -/

namespace Machine

variable {machine : Machine}

/-- A stop for lack of a name is one of a use that was made and fails. -/
def StopsAtUse (machine : Machine) (resolver : Resolver) (roots : List Address) (stop : Stop) :
    Prop :=
  ∀ missing, stop = .fault (.unresolved missing) →
    ∃ use, machine.Makes roots use ∧ use.FailsFor machine resolver missing

theorem stopsAtUse_of_failsFor {S α : Type} {computation : Run S α} {state after : S}
    {resolver : Resolver} {roots : List Address} {use : Code.Use} {stop : Stop}
    (made : machine.Makes roots use)
    (fails : ∀ missing, FailsFor computation missing state → use.FailsFor machine resolver missing)
    (stopped : computation state = .error stop after) :
    machine.StopsAtUse resolver roots stop := by
  intro missing same
  subst same
  exact ⟨use, made, fails missing ⟨after, stopped⟩⟩

theorem permits_stopsAtUse (wellFormed : machine.WellFormed) (host : HostState)
    (owner : AtExitOwner) (origin : Option DeclarationId) (roots : List Address) :
    machine.Permits (hostServices owner origin) (RunsOn machine host)
      (machine.StopsAtUse host.resolver roots) (machine.Makes roots) := by
  have runs := permits_runsOn machine host owner origin
  constructor
  case divides => exact fun missing same => nomatch same
  case overflows => exact fun missing same => nomatch same
  case endless => exact fun missing same => nomatch same
  case fits =>
    exact fun module _ => CodeUnit.fits_of_allowed (fun slot size missing same => nomatch same) _
  case read =>
    intro name made
    apply (runs.read name trivial).stopping
    intro state holds stop after
    exact stopsAtUse_of_failsFor made fun _ => (read_failsFor_iff wellFormed holds name).mp
  case write =>
    intro name made value
    apply (runs.write name trivial value).stopping
    intro state holds stop after
    exact stopsAtUse_of_failsFor made fun _ => (write_failsFor_iff wellFormed holds name value).mp
  case native =>
    intro name made undefined arguments
    apply (runs.native name trivial undefined arguments).stopping
    intro state holds stop after
    exact stopsAtUse_of_failsFor made fun _ => (native_failsFor_iff holds undefined arguments).mp
  case register =>
    intro name made argument
    apply (runs.register name trivial argument).stopping
    intro state holds stop after
    exact stopsAtUse_of_failsFor made fun _ => (register_failsFor_iff name argument).mp
  case closed => exact fun name function made called => made.call called

end Machine

/-- A run of what stands at an address fails for lack of a name only at a use. -/
theorem Engine.runFor_unresolved {engine after : Engine} (wellFormed : engine.machine.WellFormed)
    {purpose : Purpose} {owner : AtExitOwner} {origin : Option DeclarationId} {address : Address}
    {arguments : List Value} {missing : String}
    (stands : engine.machine.Stands engine.machine.globals address)
    (ran : engine.runFor purpose owner origin address arguments =
      .ok (.error (.unresolved missing), after)) :
    ∃ use, engine.machine.Makes [address] use ∧
      use.FailsFor engine.machine engine.host.resolver missing := by
  have permits := Machine.permits_stopsAtUse wellFormed engine.host owner origin [address]
  have within := Machine.runAt_within permits address
    (fun use used => ⟨address, .inl List.mem_cons_self, used⟩)
    (fun state holds vacant => absurd (stands.of_sameNames holds.1) vacant)
    arguments ⟨engine.machine.globals, engine.host⟩ ⟨rfl, .refl _ _⟩
  unfold runFor Machine.run at ran
  cases finished : engine.machine.runAt (hostServices owner origin) address arguments
      ⟨engine.machine.globals, engine.host⟩ with
  | ok value state =>
    rw [finished] at ran
    cases congrArg (fun result => result.map Prod.fst) ran
  | error stop state =>
    rw [finished] at ran within
    cases stop with
    | breakdown breakdown => cases ran
    | fault fault =>
      cases ran
      exact within.2 missing rfl

end IncrementalC
