import IncrementalC.Proofs.Engine.Likeness
import IncrementalC.Proofs.Engine.Reversal
import IncrementalC.Proofs.Machine.Extension

/-!
Contract: it does not matter whether waiting code is generated at its next use or before.

Waiting code is generated in the order of the commits, and new code waits behind all other. So an
engine that has generated the oldest of its waiting code early comes to have the same modules under
the same numbers. Until then only code that runs without waiting code being generated could tell
the difference: an at-exit action, if it reaches a name that only waiting code defines.

Owns:
- engines of which one has generated some waiting code early, and what shows of it;
- what they do with code, libraries and at-exit actions.

Does not own: sessions.
-/

namespace IncrementalC

/-! ## Generating early -/

/-- What is shown of code that may have been generated early. -/
inductive CodeStatus.Ripens : CodeStatus → CodeStatus → Prop where
  | same (status : CodeStatus) : Ripens status status
  | emitted : Ripens .pending (.emitted false)
  | failed : Ripens .pending .failed

theorem CodeStatus.Ripens.iff {status other : Option CodeStatus}
    (ripens : Option.Rel Ripens status other) :
    (other = none ↔ status = none) ∧ (other = some .excluded ↔ status = some .excluded) := by
  cases ripens with
  | none => exact ⟨Iff.rfl, Iff.rfl⟩
  | some ripens => cases ripens <;> simp

theorem CodeState.status_eq_excluded_iff {state : Option CodeState} :
    state.map status = some .excluded ↔ state = some .excluded := by
  rcases state with _ | (_ | _ | _ | _) <;> simp [status]

namespace Engine

theorem emitUnit_ripens (machine : Machine) (unit : CodeUnit) :
    (∀ other, (emitUnit machine unit).2 ≠ .pending other) ∧
      CodeStatus.Ripens .pending (emitUnit machine unit).2.status := by
  unfold emitUnit
  cases machine.emit unit with
  | error error => exact ⟨nofun, .failed⟩
  | ok generated => exact ⟨nofun, .emitted⟩

theorem settled_emitStates (machine : Machine) (states : CodeStates) :
    ∀ entry ∈ (emitStates machine states).2, ∀ unit, entry.2 ≠ .pending unit := by
  induction states generalizing machine with
  | nil => exact fun _ member => absurd member List.not_mem_nil
  | cons head rest inductionHypothesis =>
    obtain ⟨id, state⟩ := head
    cases state with
    | pending unit =>
      exact List.forall_mem_cons.mpr ⟨(emitUnit_ripens machine unit).1, inductionHypothesis _⟩
    | excluded | failed error | emitted module initialized symbols references =>
      exact List.forall_mem_cons.mpr ⟨nofun, inductionHypothesis _⟩

/-- Where states are generated, the states behind them stay. -/
theorem status_emitStates (machine : Machine) (front back : CodeStates) (id : TransactionId) :
    Option.Rel CodeStatus.Ripens ((CodeStates.find (front ++ back) id).map CodeState.status)
      ((CodeStates.find ((emitStates machine front).2 ++ back) id).map CodeState.status) := by
  induction front generalizing machine with
  | nil =>
    show Option.Rel _ ((CodeStates.find back id).map _) ((CodeStates.find back id).map _)
    cases CodeStates.find back id with
    | none => exact .none
    | some state => exact .some (.same _)
  | cons head rest inductionHypothesis =>
    obtain ⟨other, state⟩ := head
    cases state with
    | pending unit =>
      simp only [emitStates, List.cons_append, CodeStates.find_cons]
      split
      · exact .some (emitUnit_ripens machine unit).2
      · exact inductionHypothesis _
    | excluded | failed error | emitted module initialized symbols references =>
      simp only [emitStates, List.cons_append, CodeStates.find_cons]
      split
      · exact .some (.same _)
      · exact inductionHypothesis _

/-! ### What is added -/

theorem exists_addsUnit (machine : Machine) (unit : CodeUnit) :
    ∃ addition : Machine.Addition,
      (∀ globals, emitUnit { machine with globals } unit =
        (Machine.extend { machine with globals } addition, (emitUnit machine unit).2)) ∧
      ∀ module ∈ addition.modules, machine.nextModule ≤ module.id.number ∧ module.unit = unit := by
  unfold emitUnit Machine.emit
  simp only [machine.objection?_withGlobals]
  cases machine.objection? unit with
  | some error =>
    refine ⟨⟨[], [], machine.nextModule⟩, fun globals => ?_, nofun⟩
    simp [Machine.extend]
  | none =>
    refine ⟨⟨[⟨⟨machine.nextModule⟩, unit⟩],
      unit.globals.map fun entry => (entry.name, entry.constant.getD 0),
      machine.nextModule + 1⟩, fun globals => rfl, fun module member => ?_⟩
    rw [List.mem_singleton.mp member]
    exact ⟨Nat.le_refl _, rfl⟩

/-- Generating adds modules for waiting code, whatever the variables hold. -/
structure Adds (machine : Machine) (states : CodeStates) (addition : Machine.Addition) : Prop where
  generates : ∀ globals, emitStates { machine with globals } states =
    (Machine.extend { machine with globals } addition, (emitStates machine states).2)
  modules : ∀ module ∈ addition.modules, machine.nextModule ≤ module.id.number ∧
    ∃ id, (id, CodeState.pending module.unit) ∈ states

theorem exists_adds (machine : Machine) (states : CodeStates) :
    ∃ addition, Adds machine states addition := by
  induction states generalizing machine with
  | nil =>
    refine ⟨⟨[], [], machine.nextModule⟩, fun globals => ?_, nofun⟩
    simp [emitStates, Machine.extend]
  | cons head rest inductionHypothesis =>
    obtain ⟨id, state⟩ := head
    cases state with
    | pending unit =>
      obtain ⟨first, generates, own⟩ := exists_addsUnit machine unit
      obtain ⟨second, adds⟩ := inductionHypothesis (emitUnit machine unit).1
      have grown : (emitUnit machine unit).1 = machine.extend first :=
        congrArg Prod.fst (generates machine.globals)
      have next := (emitUnit_descends machine unit).nextModule
      refine ⟨⟨first.modules ++ second.modules, first.globals ++ second.globals,
        second.nextModule⟩, fun globals => ?_, fun module member => ?_⟩
      · have later := adds.generates (globals ++ first.globals)
        rw [grown] at later
        simp only [emitStates, generates globals]
        rw [show Machine.extend { machine with globals } first =
          { machine.extend first with globals := globals ++ first.globals } from rfl, later, grown]
        simp [Machine.extend]
      · rcases List.mem_append.mp member with inUnit | later
        · obtain ⟨given, rfl⟩ := own module inUnit
          exact ⟨given, id, List.mem_cons_self⟩
        · obtain ⟨given, waiting, member⟩ := adds.modules module later
          exact ⟨next.trans given, waiting, List.mem_cons_of_mem _ member⟩
    | excluded | failed error | emitted module initialized symbols references =>
      obtain ⟨addition, adds⟩ := inductionHypothesis machine
      refine ⟨addition, fun globals => ?_, fun module member => ?_⟩
      · simp only [emitStates, adds.generates globals]
      · obtain ⟨given, waiting, member⟩ := adds.modules module member
        exact ⟨given, waiting, List.mem_cons_of_mem _ member⟩

/-! ## Engines -/

/-- The engines differ in what the creator was asked for, and `other` has generated the oldest of
the waiting code already. -/
structure Ahead (create : FunctionCreator) (engine other : Engine) : Prop where
  code : ∃ front back, engine.states = front ++ back ∧
    other.machine = (emitStates engine.machine front).1 ∧
    other.states = (emitStates engine.machine front).2 ++ back
  host : engine.host.Alike create other.host
  loadedFiles : other.loadedFiles = engine.loadedFiles
  wellFormed : engine.machine.WellFormed
  bound : engine.Bound

variable {create : FunctionCreator} {engine other after otherAfter : Engine}

theorem Alike.ahead (alike : engine.Alike create other) : engine.Ahead create other where
  code := ⟨[], engine.states, rfl, alike.machine, alike.states⟩
  host := alike.host
  loadedFiles := alike.loadedFiles
  wellFormed := alike.wellFormed
  bound := alike.bound

/-- Where no code waits, nothing can have been generated early. -/
theorem Ahead.alike (ahead : engine.Ahead create other) (settled : engine.Settled) :
    engine.Alike create other := by
  obtain ⟨front, back, split, machine, states⟩ := ahead.code
  have none : emitStates engine.machine front = (engine.machine, front) :=
    emitStates_of_settled fun entry member =>
      settled entry (split ▸ List.mem_append_left back member)
  rw [none] at machine states
  exact ⟨machine, states.trans split.symm, ahead.host, ahead.loadedFiles, ahead.wellFormed,
    ahead.bound⟩

theorem Ahead.asks (ahead : engine.Ahead create other) (asks : other.Asks otherAfter) :
    engine.Ahead create otherAfter where
  code := by rw [asks.machine, asks.states]; exact ahead.code
  host :=
    ⟨ahead.host.resolver.continues (.refl _) asks.resolver, asks.atExit.trans ahead.host.atExit,
      asks.effects.trans ahead.host.effects⟩
  loadedFiles := asks.loadedFiles.trans ahead.loadedFiles
  wellFormed := ahead.wellFormed
  bound := ahead.bound

/-- What is shown of code differs in that it may have been generated early. -/
theorem Ahead.status?_ripens (ahead : engine.Ahead create other) (id : TransactionId) :
    Option.Rel CodeStatus.Ripens (engine.status? id) (other.status? id) := by
  obtain ⟨front, back, split, -, states⟩ := ahead.code
  unfold status?
  rw [state?_eq_find, state?_eq_find, split, states]
  exact status_emitStates engine.machine front back id

/-- Whether there is code, and whether it is ever to be generated, is the same. -/
theorem Ahead.state?_iff (ahead : engine.Ahead create other) (id : TransactionId) :
    (other.state? id = none ↔ engine.state? id = none) ∧
      (other.state? id = some .excluded ↔ engine.state? id = some .excluded) := by
  obtain ⟨absent, excluded⟩ := CodeStatus.Ripens.iff (ahead.status?_ripens id)
  unfold status? at absent excluded
  rw [Option.map_eq_none_iff, Option.map_eq_none_iff] at absent
  rw [CodeState.status_eq_excluded_iff, CodeState.status_eq_excluded_iff] at excluded
  exact ⟨absent, excluded⟩

/-! ### Generating -/

/-- Once all code is generated, the engines have the same. -/
theorem Ahead.emitPending (ahead : engine.Ahead create other) :
    engine.emitPending.Alike create other.emitPending := by
  obtain ⟨front, back, split, machine, states⟩ := ahead.code
  have again : emitStates (emitStates engine.machine front).1 (emitStates engine.machine front).2 =
      emitStates engine.machine front :=
    emitStates_of_settled (settled_emitStates engine.machine front)
  have same : emitStates other.machine other.states = emitStates engine.machine engine.states := by
    rw [split, machine, states, emitStates_append, emitStates_append, again]
  have descends := emitStates_descends engine.machine engine.states
  exact ⟨congrArg Prod.fst same, congrArg Prod.snd same, ahead.host, ahead.loadedFiles,
    descends.wellFormed ahead.wellFormed, ahead.bound.mono (List.Subset.refl _) descends.nextModule⟩

/-- Generating all waiting code early. -/
theorem Ahead.generated (ahead : engine.Ahead create other) :
    engine.Ahead create other.emitPending where
  code := by
    have same := ahead.emitPending
    exact ⟨engine.states, [], (List.append_nil _).symm, same.machine,
      same.states.trans (List.append_nil _).symm⟩
  host := ahead.host
  loadedFiles := ahead.loadedFiles
  wellFormed := ahead.wellFormed
  bound := ahead.bound

theorem locate_asks (engine : Engine) (name : String) :
    engine.emitPending.Asks (engine.locate name).2 := by
  unfold locate
  dsimp only
  split
  · exact .refl _
  · exact engine.emitPending.resolvesNatively_asks name

/-- Locating a name on one side only leaves that side further ahead. -/
theorem Ahead.queried (ahead : engine.Ahead create other) (name : String) :
    engine.Ahead create (other.locate name).2 :=
  ahead.generated.asks (other.locate_asks name)

/-- A name is found where it would have been found. -/
theorem Ahead.locate (ahead : engine.Ahead create other) (name : String) :
    (other.locate name).1 = (engine.locate name).1 ∧
      (engine.locate name).2.Alike create (other.locate name).2 := by
  have alike := ahead.emitPending
  refine ⟨?_, alike.asks (engine.locate_asks name) (other.locate_asks name)⟩
  unfold Engine.locate
  simp only [alike.machine]
  cases engine.emitPending.machine.resolve? name with
  | some address => rfl
  | none => simp only [(alike.resolvesNatively name).1]

theorem Ahead.dependents (ahead : engine.Ahead create other) (id : TransactionId) :
    (other.dependents id).1 = (engine.dependents id).1 ∧
      (engine.dependents id).2.Alike create (other.dependents id).2 := by
  have alike := ahead.emitPending
  rw [dependents_eq, dependents_eq]
  refine ⟨?_, alike⟩
  unfold Engine.dependents
  simp only [alike.state?_eq, alike.states]
  split <;> rfl

/-! ### Running transactions -/

/-- Once all code is generated, a transaction runs alike. -/
theorem Alike.runGenerated (alike : engine.Alike create other) (transaction : Transaction)
    (id : TransactionId) (entry : Option String) :
    EndAlike (SameResult (Alike create))
      (match engine.refusal? id entry with
      | some execution => .ok (execution, engine)
      | none =>
        match engine.runStaticInitializers id with
        | .error breakdown => .error breakdown
        | .ok (some execution, initialized) => .ok (execution, initialized)
        | .ok (none, initialized) =>
          match entry with
          | none => .ok (.ended .success, initialized)
          | some name => initialized.runEntry id transaction.declarations.getLast? name)
      (match other.refusal? id entry with
      | some execution => .ok (execution, other)
      | none =>
        match other.runStaticInitializers id with
        | .error breakdown => .error breakdown
        | .ok (some execution, initialized) => .ok (execution, initialized)
        | .ok (none, initialized) =>
          match entry with
          | none => .ok (.ended .success, initialized)
          | some name => initialized.runEntry id transaction.declarations.getLast? name) := by
  have refusal : other.refusal? id entry = engine.refusal? id entry := by
    unfold refusal?
    rw [alike.state?_eq]
  have waits : other.waiting = engine.waiting := by
    unfold waiting
    rw [alike.states]
  rw [refusal]
  unfold runStaticInitializers
  rw [waits]
  cases engine.refusal? id entry with
  | some execution => exact .done ⟨rfl, alike⟩
  | none =>
    dsimp only
    rcases (alike.initializeAll id engine.waiting).results with
      ⟨breakdown, ran, otherRan⟩ | ⟨outcome, after, otherAfter, ran, otherRan, still⟩
    · rw [ran, otherRan]
      exact .broken breakdown
    · rw [ran, otherRan]
      cases outcome with
      | some execution => exact .done ⟨rfl, still⟩
      | none =>
        cases entry with
        | none => exact .done ⟨rfl, still⟩
        | some name => exact still.runEntry id _ name

theorem Ahead.emitAndRun (ahead : engine.Ahead create other) (log : TransactionLog)
    (id : TransactionId) (entry : Option String) :
    EndAlike (SameResult (Ahead create)) (engine.emitAndRun log id entry)
      (other.emitAndRun log id entry) := by
  unfold Engine.emitAndRun
  obtain ⟨absent, excluded⟩ := ahead.state?_iff id
  cases log.get? id with
  | none => exact .done ⟨rfl, ahead⟩
  | some transaction =>
    dsimp only
    split
    · exact .broken _
    · split
      · next unknown =>
        rw [absent.mpr unknown]
        exact .done ⟨rfl, ahead⟩
      · next known =>
        rw [excluded.mpr known]
        exact .done ⟨rfl, ahead⟩
      · next state differs known =>
        have ended := (ahead.emitPending.runGenerated transaction id entry).mono
          fun _ _ _ still => (⟨still.1, still.2.ahead⟩ : SameResult (Ahead create) _ _)
        cases otherKnown : other.state? id with
        | none => exact absurd ((absent.mp otherKnown).symm.trans known) (by simp)
        | some otherState =>
          cases otherState with
          | excluded => exact (differs (Option.some.inj (known.symm.trans (excluded.mp otherKnown)))).elim
          | pending _ | emitted _ _ _ _ | failed _ => exact ended

/-! ### Committed code -/

/-- New code waits behind all other code. -/
theorem Ahead.track (ahead : engine.Ahead create other) (transaction : Transaction)
    (unit : CodeUnit) (newest : ∀ entry ∈ engine.states, entry.1.number < transaction.id.number) :
    (engine.track transaction unit).Ahead create (other.track transaction unit) := by
  obtain ⟨front, back, split, machine, states⟩ := ahead.code
  have otherNewest : ∀ entry ∈ other.states, entry.1.number < transaction.id.number := by
    have ids : other.states.map Prod.fst = engine.states.map Prod.fst := by
      rw [states, split, List.map_append, List.map_append, emitStates_fst]
    intro entry member
    obtain ⟨known, knownMember, same⟩ := List.mem_map.mp (ids ▸ List.mem_map_of_mem member)
    exact same ▸ newest known knownMember
  have own := placeState_newest newest
    (if transaction.options.generatesCode then .pending unit else .excluded)
  have otherOwn := placeState_newest otherNewest
    (if transaction.options.generatesCode then .pending unit else .excluded)
  exact ⟨⟨front, _, own.trans (by rw [split, List.append_assoc]), machine,
    otherOwn.trans (by rw [states, List.append_assoc]; rfl)⟩, ahead.host, ahead.loadedFiles,
    ahead.wellFormed, ahead.bound⟩

theorem Alike.dropCode (alike : engine.Alike create other) (id : TransactionId) :
    (engine.dropCode id).Alike create (other.dropCode id) := by
  have descends := engine.dropCode_descends id
  refine ⟨?_, ?_, alike.host, alike.loadedFiles, descends.wellFormed alike.wellFormed,
    alike.bound.mono (List.Subset.refl _) descends.nextModule⟩
  · unfold Engine.dropCode
    simp only [alike.state?_eq, alike.machine]
    rfl
  · unfold Engine.dropCode
    simp only [alike.states]
    rfl

/-! ### Hosts -/

theorem Ahead.withResolver (ahead : engine.Ahead create other) {resolver otherResolver : Resolver}
    (alike : resolver.Alike create otherResolver) :
    Ahead create { engine with host.resolver := resolver }
      { other with host.resolver := otherResolver } where
  code := ahead.code
  host := ⟨alike, ahead.host.atExit, ahead.host.effects⟩
  loadedFiles := ahead.loadedFiles
  wellFormed := ahead.wellFormed
  bound := ahead.bound

theorem Ahead.withRegistry (ahead : engine.Ahead create other) (registry : AtExitRegistry)
    (bound : ∀ action ∈ registry, action.Bound engine.machine) :
    Ahead create { engine with host.atExit := registry } { other with host.atExit := registry } where
  code := ahead.code
  host := ⟨ahead.host.resolver, rfl, ahead.host.effects⟩
  loadedFiles := ahead.loadedFiles
  wellFormed := ahead.wellFormed
  bound := bound

theorem Ahead.record (ahead : engine.Ahead create other) (event : Event) :
    (engine.record event).Ahead create (other.record event) where
  code := ahead.code
  host := ahead.host.record event
  loadedFiles := ahead.loadedFiles
  wellFormed := ahead.wellFormed
  bound := ahead.bound

/-- What was ever given a number is live in both or in none. -/
theorem Ahead.isLive_eq (ahead : engine.Ahead create other) {id : ModuleId}
    (given : id.number < engine.machine.nextModule) :
    other.machine.isLive id = engine.machine.isLive id := by
  obtain ⟨front, back, -, machine, -⟩ := ahead.code
  have descends := emitStates_descends engine.machine front
  rw [← machine] at descends
  cases live : engine.machine.isLive id with
  | false => exact descends.stays_gone ahead.wellFormed given live
  | true =>
    obtain ⟨addition, adds⟩ := exists_adds engine.machine front
    have extended : other.machine = engine.machine.extend addition :=
      machine.trans (congrArg Prod.fst (adds.generates engine.machine.globals))
    rw [extended, Machine.isLive, Machine.module?_extend live]
    exact live

/-! ## At-exit actions -/

end Engine

/-- The code of the action reaches no name that only waiting code defines. -/
def AtExitAction.Apart (engine : Engine) (action : AtExitAction) : Prop :=
  ∀ function address argument, action.callback = .generated function address argument →
    ∀ name, engine.machine.Reaches [address] name → engine.machine.resolve? name = none →
      ∀ entry ∈ engine.states, ∀ unit, entry.2 = .pending unit → name ∉ unit.definedNames

namespace Engine

variable {create : FunctionCreator} {engine other after : Engine}

theorem Settled.apart (settled : engine.Settled) (action : AtExitAction) : action.Apart engine :=
  fun _ _ _ _ _ _ _ entry member unit waits => (settled entry member unit waits).elim

theorem Continues.apart (continues : engine.Continues after) {action : AtExitAction}
    (apart : action.Apart engine) : action.Apart after := by
  intro function address argument callback name reached unresolved entry member unit waits
  rw [continues.machine.reaches_iff] at reached
  rw [continues.machine.resolve?] at unresolved
  rw [continues.states] at member
  exact apart function address argument callback name reached unresolved entry member unit waits

/-- A function that reaches no name that only waiting code defines runs alike. -/
theorem Ahead.runFor (ahead : engine.Ahead create other) {address : Address}
    (kind : address.kind = .function) (live : engine.machine.isLive address.module = true)
    (apart : ∀ name, engine.machine.Reaches [address] name → engine.machine.resolve? name = none →
      ∀ entry ∈ engine.states, ∀ unit, entry.2 = .pending unit → name ∉ unit.definedNames)
    (purpose : Purpose) (id : TransactionId) (origin : Option DeclarationId)
    (arguments : List Value) :
    EndAlike (SameResult (Ahead create))
      (engine.runFor purpose (.transaction id) origin address arguments)
      (other.runFor purpose (.transaction id) origin address arguments) := by
  obtain ⟨front, back, split, machine, states⟩ := ahead.code
  obtain ⟨addition, adds⟩ := exists_adds engine.machine front
  have extended : other.machine = engine.machine.extend addition :=
    machine.trans (congrArg Prod.fst (adds.generates engine.machine.globals))
  have otherWellFormed : (engine.machine.extend addition).WellFormed := by
    rw [← extended, machine]
    exact (emitStates_descends engine.machine front).wellFormed ahead.wellFormed
  have unreached : ∀ name, engine.machine.Reaches [address] name →
      engine.machine.resolve? name = none → name ∉ addition.names := by
    intro name reached unresolved defined
    obtain ⟨module, member, own⟩ := List.mem_flatMap.mp defined
    obtain ⟨-, waiting, waits⟩ := adds.modules module member
    exact apart name reached unresolved _ (split ▸ List.mem_append_left back waits) _ rfl own
  have runs := Machine.run_extend ahead.wellFormed otherWellFormed kind live unreached
    (hostServices (.transaction id) origin) arguments other.host
  obtain ⟨results, machines, hosts⟩ :=
    ahead.host.run engine.machine (.transaction id) origin address arguments
  have continues := (engine.machine.run_continues (.transaction id) origin address arguments
    engine.host).1
  have bound {result : Except Fault Value} {after : Engine} :=
    @Bound.ran engine after ahead.bound ahead.wellFormed purpose id origin address arguments result
  unfold Engine.runFor at bound ⊢
  rw [extended, runs]
  rcases ran : engine.machine.run (hostServices (.transaction id) origin) address arguments
    engine.host with ⟨ended, machineAfter, host⟩
  rcases otherRan : engine.machine.run (hostServices (.transaction id) origin) address arguments
    other.host with ⟨otherEnded, otherMachine, otherHost⟩
  rw [ran] at results machines hosts continues bound
  rw [otherRan] at results machines hosts
  obtain rfl : otherEnded = ended := results
  obtain rfl : otherMachine = machineAfter := machines
  have code : ∃ front back, engine.states = front ++ back ∧
      otherMachine.extend addition = (emitStates otherMachine front).1 ∧
      other.states = (emitStates otherMachine front).2 ++ back := by
    have generates := adds.generates otherMachine.globals
    rw [← continues.same] at generates
    exact ⟨front, back, split, by rw [generates], by rw [generates]; exact states⟩
  have wellFormed := continues.wellFormed ahead.wellFormed
  cases otherEnded with
  | ok value => exact .done ⟨rfl, code, hosts, ahead.loadedFiles, wellFormed, bound rfl⟩
  | error stop =>
    cases stop with
    | fault fault => exact .done ⟨rfl, code, hosts, ahead.loadedFiles, wellFormed, bound rfl⟩
    | breakdown breakdown => exact .broken breakdown

/-- Actions run alike if their code reaches no name that only waiting code defines. -/
theorem Ahead.runAtExit {actions : List AtExitAction} (ahead : engine.Ahead create other)
    (bound : ∀ action ∈ actions, action.Bound engine.machine)
    (apart : ∀ action ∈ actions, action.Apart engine) :
    EndAlike (fun after otherAfter =>
        after.Ahead create otherAfter ∧ after.states = engine.states)
      (engine.runAtExit actions) (other.runAtExit actions) := by
  induction actions generalizing engine other with
  | nil => exact .done ⟨ahead, rfl⟩
  | cons action rest inductionHypothesis =>
    obtain ⟨ownBound, restBound⟩ := List.forall_mem_cons.mp bound
    obtain ⟨ownApart, restApart⟩ := List.forall_mem_cons.mp apart
    unfold Engine.runAtExit
    cases callback : action.callback with
    | native destructor =>
      exact inductionHypothesis (ahead.record (.destructorRan destructor.label)) restBound restApart
    | generated name address argument =>
      obtain ⟨kind, given, id, owner⟩ := ownBound name address argument callback
      have sameLiveness := ahead.isLive_eq given
      dsimp only
      rw [owner, sameLiveness]
      split
      · next live =>
        have runs := ahead.runFor kind live (ownApart name address argument callback) .atExit id
          action.origin [argument]
        rcases runs.results with
          ⟨breakdown, ran, otherRan⟩ | ⟨result, after, otherAfter, ran, otherRan, still⟩
        · rw [ran, otherRan]
          exact .broken breakdown
        · have continues := (runFor_eq ran).1
          rw [ran, otherRan]
          refine (inductionHypothesis still (fun later member => ?_) fun later member =>
            continues.apart (restApart later member)).mono fun _ _ _ ended =>
              ⟨ended.1, ended.2.trans continues.states⟩
          exact (restBound later member).continues continues.machine
      · exact inductionHypothesis ahead restBound restApart

theorem Ahead.runOwned (ahead : engine.Ahead create other) (owner : AtExitOwner)
    (apart : ∀ action ∈ engine.host.atExit, action.owner = owner → action.Apart engine) :
    EndAlike (fun ended otherEnded => SameResult (Ahead create) ended otherEnded ∧
        ended.2.states = engine.states)
      (engine.runOwned owner) (other.runOwned owner) := by
  unfold Engine.runOwned
  rw [ahead.host.atExit]
  have handedOut := ahead.withRegistry (engine.host.atExit.takeOwned owner).2
    (fun action member => ahead.bound action (List.mem_of_mem_filter member))
  have owned : ∀ action ∈ (engine.host.atExit.takeOwned owner).1,
      action.Bound engine.machine ∧ action.Apart engine := by
    intro action member
    obtain ⟨outstanding, own⟩ := List.mem_filter.mp member
    exact ⟨ahead.bound action outstanding, apart action outstanding (of_decide_eq_true own)⟩
  have runs := handedOut.runAtExit (fun action member => (owned action member).1)
    fun action member => (owned action member).2
  rcases runs.cases with
    ⟨breakdown, ran, otherRan⟩ | ⟨after, otherAfter, ran, otherRan, still, states⟩
  · dsimp only
    rw [ran, otherRan]
    exact .broken breakdown
  · dsimp only
    rw [ran, otherRan]
    exact .done ⟨⟨rfl, still⟩, states⟩

theorem Ahead.runStaticDestructors (ahead : engine.Ahead create other)
    (apart : ∀ action ∈ engine.host.atExit, action.Apart engine) :
    EndAlike (SameResult (Ahead create)) engine.runStaticDestructors
      other.runStaticDestructors := by
  unfold Engine.runStaticDestructors AtExitRegistry.drain
  rw [ahead.host.atExit]
  have handedOut := ahead.withRegistry [] fun action member => absurd member List.not_mem_nil
  rcases (handedOut.runAtExit ahead.bound apart).cases with
    ⟨breakdown, ran, otherRan⟩ | ⟨after, otherAfter, ran, otherRan, still, -⟩
  · dsimp only
    rw [ran, otherRan]
    exact .broken breakdown
  · dsimp only
    rw [ran, otherRan]
    exact .done ⟨rfl, still⟩

/-- Where no code waits, a transaction is unloaded alike. -/
theorem Alike.unload (alike : engine.Alike create other) (settled : engine.Settled)
    (id : TransactionId) :
    EndAlike (SameResult (Alike create)) (engine.unload id) (other.unload id) := by
  unfold Engine.unload
  rcases (alike.ahead.runOwned (.transaction id) fun action _ _ => settled.apart action).cases with
    ⟨breakdown, ran, otherRan⟩ | ⟨⟨count, after⟩, ⟨otherCount, otherAfter⟩, ran, otherRan,
      ⟨same, still⟩, states⟩
  · rw [ran, otherRan]
    exact .broken breakdown
  · obtain rfl : otherCount = count := same
    have settledAfter : after.Settled := by
      unfold Settled at settled ⊢
      rw [show after.states = engine.states from states]
      exact settled
    rw [ran, otherRan]
    exact .done ⟨rfl, (still.alike settledAfter).dropCode id⟩

/-! ## Libraries -/

theorem Ahead.registerDestructors (ahead : engine.Ahead create other) (canonical : String)
    (handle : LibraryHandle) :
    (engine.registerDestructors canonical handle).Ahead create
      (other.registerDestructors canonical handle) := by
  have same : (other.registerDestructors canonical handle).host.atExit =
      (engine.registerDestructors canonical handle).host.atExit := by
    unfold Engine.registerDestructors
    rw [ahead.host.resolver.loader, ahead.host.atExit]
  refine ⟨ahead.code, ⟨ahead.host.resolver, same, ahead.host.effects⟩, ahead.loadedFiles,
    ahead.wellFormed, fun action member => ?_⟩
  rw [registerDestructors_atExit] at member
  rcases List.mem_append.mp member with registered | old
  · obtain ⟨destructor, -, rfl⟩ := List.mem_map.mp (List.mem_reverse.mp registered)
    exact nofun
  · exact ahead.bound action old

theorem Ahead.withFile (ahead : engine.Ahead create other) (file : LoadedFile) :
    Ahead create { engine with loadedFiles := engine.loadedFiles ++ [file] }
      { other with loadedFiles := other.loadedFiles ++ [file] } where
  code := ahead.code
  host := ahead.host
  loadedFiles := congrArg (· ++ [file]) ahead.loadedFiles
  wellFormed := ahead.wellFormed
  bound := ahead.bound

theorem Ahead.loadLibrary (ahead : engine.Ahead create other) (files : Files.FileTree)
    (name : String) (permanent : Bool) (searchPaths : List String) :
    (other.loadLibrary files name permanent searchPaths).1 =
        (engine.loadLibrary files name permanent searchPaths).1 ∧
      (engine.loadLibrary files name permanent searchPaths).2.Ahead create
        (other.loadLibrary files name permanent searchPaths).2 := by
  have resolvers := ahead.host.resolver
  unfold Engine.loadLibrary
  rw [resolvers.loader]
  cases engine.host.resolver.loader.locate? files name searchPaths with
  | none => exact ⟨rfl, ahead⟩
  | some canonical =>
    dsimp only
    rw [resolvers.findLibrary?_eq]
    split
    · exact ⟨rfl, ahead⟩
    · unfold Resolver.openLibrary
      rw [resolvers.loader]
      cases engine.host.resolver.loader.openLibrary canonical with
      | error error => exact ⟨rfl, ahead⟩
      | ok opened =>
        obtain ⟨handle, loader⟩ := opened
        dsimp only
        rw [resolvers.libraries]
        have opened := ahead.withResolver (resolvers.withLibraries
          (engine.host.resolver.libraries.set canonical ⟨name, handle, permanent⟩) loader)
        exact ⟨rfl, (opened.registerDestructors canonical handle).withFile _⟩

theorem Ahead.libraryName?_eq (ahead : engine.Ahead create other) (name : String) :
    other.libraryName? name = engine.libraryName? name :=
  congrArg (Option.map Prod.fst) (ahead.host.resolver.findLibrary?_eq name)

theorem Ahead.unloadLibrary (ahead : engine.Ahead create other) (name : String) :
    EndAlike (SameResult (Ahead create)) (engine.unloadLibrary name)
      (other.unloadLibrary name) := by
  unfold Engine.unloadLibrary
  rw [ahead.host.resolver.findLibrary?_eq]
  cases engine.host.resolver.findLibrary? name with
  | none => exact .done ⟨rfl, ahead⟩
  | some found =>
    obtain ⟨canonical, library⟩ := found
    dsimp only
    split
    · exact .done ⟨rfl, ahead⟩
    · have foreign : ∀ action ∈ engine.host.atExit, action.owner = .library canonical →
          action.Apart engine := by
        intro action member owned function address argument callback
        obtain ⟨-, -, id, owner⟩ := ahead.bound action member function address argument callback
        cases owner.symm.trans owned
      rcases (ahead.runOwned (.library canonical) foreign).cases with
        ⟨breakdown, ran, otherRan⟩ | ⟨⟨count, after⟩, ⟨otherCount, otherAfter⟩, ran, otherRan,
          ⟨same, still⟩, -⟩
      · rw [ran, otherRan]
        exact .broken breakdown
      · rw [ran, otherRan]
        exact .done ⟨rfl, still.withResolver (still.host.resolver.closeLibrary canonical)⟩

end Engine

end IncrementalC
