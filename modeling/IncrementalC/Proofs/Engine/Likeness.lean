import Mathlib.Data.List.Sort
import IncrementalC.Engine.Execution
import IncrementalC.Proofs.Engine.Callbacks
import IncrementalC.Proofs.Engine.Search

/-!
Contract: asking the lazy creator more often shows in nothing but its being asked.

A creator answers by the name alone. So two engines with the same code, of which one has asked it
for more names, run everything alike: they come to the same results with the same effects, and are
again such engines.

Owns:
- computations that end alike, in states that are related;
- what running code can tell of its host;
- engines that differ in what the creator was asked for, and running code on them.

Does not own: generating code, at-exit actions, and libraries.
-/

namespace IncrementalC

/-! ## Ending alike -/

/-- Both break down in the same way, or come to ends that are related. -/
inductive EndAlike {α : Type} (related : α → α → Prop) :
    Except Breakdown α → Except Breakdown α → Prop where
  | done {first second : α} (holds : related first second) : EndAlike related (.ok first) (.ok second)
  | broken (breakdown : Breakdown) : EndAlike related (.error breakdown) (.error breakdown)

/-- The results are the same, and the states are related. -/
def SameResult {S α : Type} (related : S → S → Prop) (first second : α × S) : Prop :=
  second.1 = first.1 ∧ related first.2 second.2

section

variable {α : Type} {related : α → α → Prop} {first second : Except Breakdown α}

theorem EndAlike.cases (alike : EndAlike related first second) :
    (∃ breakdown, first = .error breakdown ∧ second = .error breakdown) ∨
      ∃ ended otherEnded, first = .ok ended ∧ second = .ok otherEnded ∧
        related ended otherEnded := by
  cases alike with
  | done holds => exact .inr ⟨_, _, rfl, rfl, holds⟩
  | broken breakdown => exact .inl ⟨breakdown, rfl, rfl⟩

/-- What holds of the first run alone may be used of it. -/
theorem EndAlike.mono {weaker : α → α → Prop} (alike : EndAlike related first second)
    (weakens : ∀ ended otherEnded, first = .ok ended → related ended otherEnded →
      weaker ended otherEnded) : EndAlike weaker first second := by
  cases alike with
  | done holds => exact .done (weakens _ _ rfl holds)
  | broken breakdown => exact .broken breakdown

end

theorem EndAlike.results {S α : Type} {related : S → S → Prop}
    {first second : Except Breakdown (α × S)} (alike : EndAlike (SameResult related) first second) :
    (∃ breakdown, first = .error breakdown ∧ second = .error breakdown) ∨
      ∃ result state other, first = .ok (result, state) ∧ second = .ok (result, other) ∧
        related state other := by
  refine alike.cases.imp_right ?_
  rintro ⟨⟨result, state⟩, ⟨otherResult, other⟩, ended, otherEnded, same, holds⟩
  obtain rfl : otherResult = result := same
  exact ⟨otherResult, state, other, ended, otherEnded, holds⟩

/-! ## Effects -/

/-- The creator was asked for a function. -/
def Event.asksCreator : Event → Bool
  | .functionRequested _ => true
  | _ => false

/-- What happened, but for the creator being asked. -/
def Trace.effects (trace : Trace) : Trace := trace.filter fun event => !event.asksCreator

namespace Trace

theorem callsOf_effects (function : HostIdentity) (trace : Trace) :
    trace.effects.callsOf function = trace.callsOf function := by
  unfold effects callsOf
  rw [List.filterMap_filter]
  refine List.filterMap_congr fun event _ => ?_
  cases event <;> rfl

theorem definitionsRequested_effects (trace : Trace) :
    trace.effects.definitionsRequested = trace.definitionsRequested := by
  unfold effects definitionsRequested
  rw [List.filterMap_filter]
  refine List.filterMap_congr fun event _ => ?_
  cases event <;> rfl

theorem effects_resolve (resolver : Resolver) (name : String) (trace : Trace) :
    effects (resolver.resolve name trace).2.2 = trace.effects := by
  unfold Resolver.resolve
  cases resolver.known? name with
  | some function => rfl
  | none =>
    cases resolver.creator with
    | none => rfl
    | some create => cases answer : create name <;> simp only [answer] <;> rfl

/-- A native function cannot tell whether the creator was asked. -/
theorem call_effects (function : NativeFunction) (arguments : List Int64) (trace : Trace) :
    function.call arguments trace.effects =
      ((function.call arguments trace).1, effects (function.call arguments trace).2) := by
  have responds (host : HostFunction) : host.call arguments trace.effects =
      ((host.call arguments trace).1, effects (host.call arguments trace).2) := by
    unfold HostFunction.call
    rw [callsOf_effects]
    rfl
  cases function with
  | host function =>
    simp only [NativeFunction.call, responds]
  | foreign name code =>
    cases code with
    | none => rfl
    | some code =>
      simp only [NativeFunction.call, responds]
      split <;> rfl

end Trace

/-! ## Resolvers -/

namespace Resolver

/-- No creator but `create` was ever installed, and what was created are its answers. -/
structure Remembers (create : FunctionCreator) (resolver : Resolver) : Prop where
  installed : ∀ creator, resolver.creator = some creator → creator = create
  answers : ∀ name function, resolver.created.get? name = some function →
    resolver.creator = some create ∧ create name = some function

variable {create : FunctionCreator} {resolver after : Resolver}

/-- What was created goes without saying. -/
theorem Remembers.native?_eq (remembers : resolver.Remembers create) (name : String) :
    resolver.native? name =
      ((resolver.added.get? name).or (resolver.exported? name)).or
        (resolver.creator.bind fun create => create name) := by
  unfold native? known?
  cases resolver.added.get? name with
  | some function => rfl
  | none =>
    cases resolver.exported? name with
    | some function => rfl
    | none =>
      cases created : resolver.created.get? name with
      | none => rfl
      | some function =>
        obtain ⟨installed, answer⟩ := remembers.answers name function created
        rw [installed]
        exact answer.symm

theorem Remembers.continues (remembers : resolver.Remembers create)
    (continues : resolver.Continues after) : after.Remembers create where
  installed creator installed :=
    remembers.installed creator (continues.creator.symm.trans installed)
  answers name function created := by
    rw [continues.creator]
    rcases continues.answered name function created with old | ⟨-, creator, installed, answer⟩
    · exact remembers.answers name function old
    · obtain rfl := remembers.installed creator installed
      exact ⟨installed, answer⟩

/-- The resolvers differ in which answers of the creator they remember. -/
structure Alike (create : FunctionCreator) (resolver other : Resolver) : Prop where
  first : resolver.Remembers create
  second : other.Remembers create
  added : other.added = resolver.added
  libraries : other.libraries = resolver.libraries
  loader : other.loader = resolver.loader
  creator : other.creator = resolver.creator

namespace Alike

variable {other otherAfter : Resolver}

theorem exported?_eq (alike : resolver.Alike create other) (name : String) :
    other.exported? name = resolver.exported? name := by
  unfold exported?
  rw [alike.libraries, alike.loader]

theorem native?_eq (alike : resolver.Alike create other) (name : String) :
    other.native? name = resolver.native? name := by
  rw [alike.first.native?_eq, alike.second.native?_eq, alike.added, alike.exported?_eq,
    alike.creator]

theorem continues (alike : resolver.Alike create other) (first : resolver.Continues after)
    (second : other.Continues otherAfter) : after.Alike create otherAfter where
  first := alike.first.continues first
  second := alike.second.continues second
  added := second.added.trans (alike.added.trans first.added.symm)
  libraries := second.libraries.trans (alike.libraries.trans first.libraries.symm)
  loader := second.loader.trans (alike.loader.trans first.loader.symm)
  creator := second.creator.trans (alike.creator.trans first.creator.symm)

theorem findLibrary?_eq (alike : resolver.Alike create other) (name : String) :
    other.findLibrary? name = resolver.findLibrary? name := by
  unfold findLibrary?
  rw [alike.libraries]

/-- Libraries come and go alike. -/
theorem withLibraries (alike : resolver.Alike create other) (libraries : Keyed OpenLibrary)
    (loader : Loader) :
    Alike create { resolver with libraries, loader } { other with libraries, loader } where
  first := ⟨alike.first.installed, alike.first.answers⟩
  second := ⟨alike.second.installed, alike.second.answers⟩
  added := alike.added
  libraries := rfl
  loader := rfl
  creator := alike.creator

theorem provide (alike : resolver.Alike create other) (name : String) (library : Library) :
    Alike create { resolver with loader := resolver.loader.provide name library }
      { other with loader := other.loader.provide name library } where
  first := ⟨alike.first.installed, alike.first.answers⟩
  second := ⟨alike.second.installed, alike.second.answers⟩
  added := alike.added
  libraries := alike.libraries
  loader := congrArg (·.provide name library) alike.loader
  creator := alike.creator

theorem closeLibrary (alike : resolver.Alike create other) (canonical : String) :
    Alike create (resolver.closeLibrary canonical).2 (other.closeLibrary canonical).2 := by
  unfold Resolver.closeLibrary
  rw [alike.libraries, alike.loader]
  cases resolver.libraries.get? canonical with
  | none => exact alike
  | some library => exact alike.withLibraries _ _

theorem addFunction (alike : resolver.Alike create other) (name : String)
    (function : NativeFunction) :
    Alike create (resolver.addFunction name function) (other.addFunction name function) where
  first := ⟨alike.first.installed, alike.first.answers⟩
  second := ⟨alike.second.installed, alike.second.answers⟩
  added := congrArg (Keyed.set name function) alike.added
  libraries := alike.libraries
  loader := alike.loader
  creator := alike.creator

theorem setCreator (alike : resolver.Alike create other) :
    Alike create (resolver.setCreator create) (other.setCreator create) where
  first := ⟨fun _ installed => (Option.some.inj installed).symm, fun name function created =>
    ⟨rfl, (alike.first.answers name function created).2⟩⟩
  second := ⟨fun _ installed => (Option.some.inj installed).symm, fun name function created =>
    ⟨rfl, (alike.second.answers name function created).2⟩⟩
  added := alike.added
  libraries := alike.libraries
  loader := alike.loader
  creator := rfl

end Alike

end Resolver

/-! ## Hosts -/

/-- What running code can tell of its host. -/
structure HostView where
  native? : String → Option NativeFunction
  atExit : AtExitRegistry
  effects : Trace

/-- The services of a host of which no more is known. -/
def HostView.services (owner : AtExitOwner) (origin : Option DeclarationId) :
    Services HostView where
  callNative name arguments view :=
    match view.native? name with
    | none => (.error (.unresolved name), view)
    | some function =>
      let (result, effects) := function.call arguments view.effects
      (result, { view with effects })
  registerAtExit function address argument view :=
    { view with
      atExit := view.atExit.register ⟨.generated function address argument, owner, origin⟩
      effects := .atExitRegistered function address argument :: view.effects }

namespace HostState

def view (host : HostState) : HostView :=
  ⟨host.resolver.native?, host.atExit, host.trace.effects⟩

theorem services_mirrored (owner : AtExitOwner) (origin : Option DeclarationId) :
    (hostServices owner origin).Mirrored view (HostView.services owner origin) where
  callNative name arguments host := by
    have found := host.resolver.resolve_fst name host.trace
    have resolved := host.resolver.resolve_continues name host.trace
    have asked := Trace.effects_resolve host.resolver name host.trace
    simp only [HostView.services, hostServices, view]
    rcases answer : host.resolver.resolve name host.trace with ⟨_ | function, resolver, trace⟩
    · rw [answer] at found resolved asked
      simp only [← found, ← asked, ← funext resolved.native?_eq]
    · rw [answer] at found resolved asked
      simp only [← found, ← asked, ← funext resolved.native?_eq, Trace.call_effects]
  registerAtExit _ _ _ _ := rfl

/-- The hosts differ in what the creator was asked for. -/
structure Alike (create : FunctionCreator) (host other : HostState) : Prop where
  resolver : host.resolver.Alike create other.resolver
  atExit : other.atExit = host.atExit
  effects : other.trace.effects = host.trace.effects

variable {create : FunctionCreator} {host other : HostState}

theorem Alike.view_eq (alike : host.Alike create other) : other.view = host.view := by
  unfold view
  rw [funext alike.resolver.native?_eq, alike.atExit, alike.effects]

theorem Alike.record (alike : host.Alike create other) (event : Event) :
    Alike create { host with trace := event :: host.trace }
      { other with trace := event :: other.trace } where
  resolver := alike.resolver
  atExit := alike.atExit
  effects := by
    have same := alike.effects
    unfold Trace.effects at same ⊢
    rw [List.filter_cons, List.filter_cons, same]

/-- Code runs alike on hosts that are alike. -/
theorem Alike.run (alike : host.Alike create other) (machine : Machine) (owner : AtExitOwner)
    (origin : Option DeclarationId) (address : Address) (arguments : List Value) :
    (machine.run (hostServices owner origin) address arguments other).1 =
        (machine.run (hostServices owner origin) address arguments host).1 ∧
      (machine.run (hostServices owner origin) address arguments other).2.1 =
        (machine.run (hostServices owner origin) address arguments host).2.1 ∧
      Alike create (machine.run (hostServices owner origin) address arguments host).2.2
        (machine.run (hostServices owner origin) address arguments other).2.2 := by
  have mirrored := services_mirrored owner origin
  have first := Machine.run_mirrors mirrored machine address arguments host
  have second := Machine.run_mirrors mirrored machine address arguments other
  rw [alike.view_eq, first] at second
  obtain ⟨results, rest⟩ := Prod.mk.inj second
  obtain ⟨machines, views⟩ := Prod.mk.inj rest
  have continued := (machine.run_continues owner origin address arguments host).2.resolver
  have otherContinued := (machine.run_continues owner origin address arguments other).2.resolver
  exact ⟨results.symm, machines.symm, alike.resolver.continues continued otherContinued,
    (congrArg HostView.atExit views).symm, (congrArg HostView.effects views).symm⟩

end HostState

/-! ## Engines -/

/-- The action was registered by code of a transaction, for a function that had been
generated. -/
def AtExitAction.Bound (machine : Machine) (action : AtExitAction) : Prop :=
  ∀ name address argument, action.callback = .generated name address argument →
    address.kind = .function ∧ address.module.number < machine.nextModule ∧
      ∃ id, action.owner = .transaction id

theorem AtExitAction.Bound.continues {before after : Machine} {action : AtExitAction}
    (bound : action.Bound before) (continues : before.Continues after) : action.Bound after := by
  unfold Bound at bound ⊢
  rw [continues.nextModule]
  exact bound

namespace Engine

/-- Code has registered actions for transactions only. -/
def Bound (engine : Engine) : Prop := ∀ action ∈ engine.host.atExit, action.Bound engine.machine

section

variable {engine after : Engine}

theorem Bound.mono (bound : engine.Bound) (registry : after.host.atExit ⊆ engine.host.atExit)
    (grows : engine.machine.nextModule ≤ after.machine.nextModule) : after.Bound := by
  intro action member name address argument callback
  obtain ⟨kind, given, owner⟩ := bound action (registry member) name address argument callback
  exact ⟨kind, Nat.lt_of_lt_of_le given grows, owner⟩

theorem Bound.ran (bound : engine.Bound) (wellFormed : engine.machine.WellFormed)
    {purpose : Purpose} {id : TransactionId} {origin : Option DeclarationId} {address : Address}
    {arguments : List Value} {result : Except Fault Value}
    (ran : engine.runFor purpose (.transaction id) origin address arguments = .ok (result, after)) :
    after.Bound := by
  have same := (runFor_eq ran).1.machine.nextModule
  intro action member name target argument callback
  rw [same]
  rw [runFor_atExit ran] at member
  rcases List.mem_append.mp member with registered | old
  · obtain ⟨other, otherTarget, otherArgument, otherCallback, found⟩ :=
      callsFunction_of_mem_registrations ran registered
    obtain ⟨-, rfl, -⟩ := AtExitCallback.generated.inj (callback.symm.trans otherCallback)
    obtain ⟨resolved, kind⟩ := Option.filter_eq_some_iff.mp found
    obtain ⟨module, live, denotes⟩ := Machine.exists_of_resolve? resolved
    refine ⟨of_decide_eq_true kind, ?_, id, owner_of_mem_registrations registered⟩
    rw [Module.address?_module denotes]
    exact wellFormed.numbered module live
  · exact bound action old name target argument callback

end

/-- The engines have the same code, and differ in what the creator was asked for. -/
structure Alike (create : FunctionCreator) (engine other : Engine) : Prop where
  machine : other.machine = engine.machine
  states : other.states = engine.states
  host : engine.host.Alike create other.host
  loadedFiles : other.loadedFiles = engine.loadedFiles
  wellFormed : engine.machine.WellFormed
  bound : engine.Bound

variable {create : FunctionCreator} {engine other after otherAfter : Engine}

theorem Alike.state?_eq (alike : engine.Alike create other) (id : TransactionId) :
    other.state? id = engine.state? id := by
  unfold state?
  rw [alike.states]

/-! ### Asking -/

/-- `after` is `before` after the creator was asked. -/
structure Asks (before after : Engine) : Prop where
  machine : after.machine = before.machine
  states : after.states = before.states
  resolver : before.host.resolver.Continues after.host.resolver
  atExit : after.host.atExit = before.host.atExit
  effects : after.host.trace.effects = before.host.trace.effects
  loadedFiles : after.loadedFiles = before.loadedFiles

theorem Asks.refl (engine : Engine) : engine.Asks engine := ⟨rfl, rfl, .refl _, rfl, rfl, rfl⟩

theorem Asks.trans {before between after : Engine} (first : before.Asks between)
    (second : between.Asks after) : before.Asks after where
  machine := second.machine.trans first.machine
  states := second.states.trans first.states
  resolver := first.resolver.trans second.resolver
  atExit := second.atExit.trans first.atExit
  effects := second.effects.trans first.effects
  loadedFiles := second.loadedFiles.trans first.loadedFiles

theorem resolvesNatively_asks (engine : Engine) (name : String) :
    engine.Asks (engine.resolvesNatively name).2 :=
  ⟨rfl, rfl, engine.host.resolver.resolve_continues name _, rfl,
    Trace.effects_resolve engine.host.resolver name _, rfl⟩

theorem missingNames_asks (engine : Engine) (roots : List Address) :
    engine.Asks (engine.missingNames roots).2 :=
  engine.missingNames_keeps roots engine.Asks
    (fun between name asked => asked.trans (between.resolvesNatively_asks name)) (.refl engine)

theorem Alike.asks (alike : engine.Alike create other) (first : engine.Asks after)
    (second : other.Asks otherAfter) : after.Alike create otherAfter where
  machine := second.machine.trans (alike.machine.trans first.machine.symm)
  states := second.states.trans (alike.states.trans first.states.symm)
  host :=
    ⟨alike.host.resolver.continues first.resolver second.resolver,
      second.atExit.trans (alike.host.atExit.trans first.atExit.symm),
      second.effects.trans (alike.host.effects.trans first.effects.symm)⟩
  loadedFiles := second.loadedFiles.trans (alike.loadedFiles.trans first.loadedFiles.symm)
  wellFormed := first.machine ▸ alike.wellFormed
  bound := alike.bound.mono (fun _ => (first.atExit ▸ ·))
    (Nat.le_of_eq (congrArg Machine.nextModule first.machine.symm))

/-- Whatever the creator was asked for, a name is native or not. -/
theorem Alike.resolvesNatively (alike : engine.Alike create other) (name : String) :
    (other.resolvesNatively name).1 = (engine.resolvesNatively name).1 ∧
      (engine.resolvesNatively name).2.Alike create (other.resolvesNatively name).2 := by
  refine ⟨?_, alike.asks (engine.resolvesNatively_asks name) (other.resolvesNatively_asks name)⟩
  rw [(other.resolvesNatively_eq name).1, (engine.resolvesNatively_eq name).1,
    alike.host.resolver.native?_eq]

/-- The same names are missing. -/
theorem Alike.missingNames (alike : engine.Alike create other) (roots : List Address) :
    (other.missingNames roots).1 = (engine.missingNames roots).1 ∧
      (engine.missingNames roots).2.Alike create (other.missingNames roots).2 := by
  refine ⟨?_, alike.asks (engine.missingNames_asks roots) (other.missingNames_asks roots)⟩
  refine (other.ascending_missingNames roots).eq_of_mem_iff (engine.ascending_missingNames roots)
    fun name => ?_
  rw [mem_missingNames_iff, mem_missingNames_iff, alike.machine]
  unfold Provides
  rw [alike.host.resolver.native?_eq]

/-! ### Running -/

/-- Code runs alike in engines that are alike. -/
theorem Alike.runFor (alike : engine.Alike create other) (purpose : Purpose) (id : TransactionId)
    (origin : Option DeclarationId) (address : Address) (arguments : List Value) :
    EndAlike (SameResult (Alike create))
      (engine.runFor purpose (.transaction id) origin address arguments)
      (other.runFor purpose (.transaction id) origin address arguments) := by
  obtain ⟨results, machines, hosts⟩ :=
    alike.host.run engine.machine (.transaction id) origin address arguments
  have wellFormed := (engine.machine.run_continues (.transaction id) origin address arguments
    engine.host).1.wellFormed alike.wellFormed
  have bound {result : Except Fault Value} {after : Engine} :=
    @Bound.ran engine after alike.bound alike.wellFormed purpose id origin address arguments result
  unfold Engine.runFor at bound ⊢
  rw [alike.machine]
  rcases ran : engine.machine.run (hostServices (.transaction id) origin) address arguments
    engine.host with ⟨ended, machine, host⟩
  rcases otherRan : engine.machine.run (hostServices (.transaction id) origin) address arguments
    other.host with ⟨otherEnded, otherMachine, otherHost⟩
  rw [ran] at results machines hosts wellFormed bound
  rw [otherRan] at results machines hosts
  obtain rfl : otherEnded = ended := results
  obtain rfl : otherMachine = machine := machines
  cases otherEnded with
  | ok value => exact .done ⟨rfl, rfl, alike.states, hosts, alike.loadedFiles, wellFormed, bound rfl⟩
  | error stop =>
    cases stop with
    | fault fault =>
      exact .done ⟨rfl, rfl, alike.states, hosts, alike.loadedFiles, wellFormed, bound rfl⟩
    | breakdown breakdown => exact .broken breakdown

theorem Alike.runInitializers (owner : TransactionId) (entries : List Machine.InitializerEntry)
    (alike : engine.Alike create other) :
    EndAlike (SameResult (Alike create)) (engine.runInitializers owner entries)
      (other.runInitializers owner entries) := by
  induction entries generalizing engine other with
  | nil => exact .done ⟨rfl, alike⟩
  | cons entry rest inductionHypothesis =>
    unfold Engine.runInitializers
    rcases (alike.runFor .initializer owner (some entry.declaration) entry.address []).results with
      ⟨breakdown, ran, otherRan⟩ | ⟨result, after, otherAfter, ran, otherRan, still⟩
    · rw [ran, otherRan]
      exact .broken breakdown
    · rw [ran, otherRan]
      cases result with
      | error fault => exact .done ⟨rfl, still⟩
      | ok value => exact inductionHypothesis still

theorem Alike.mark (alike : engine.Alike create other) (id : TransactionId) :
    (engine.mark id).Alike create (other.mark id) :=
  ⟨alike.machine, congrArg (markInitialized id) alike.states, alike.host, alike.loadedFiles,
    alike.wellFormed, alike.bound⟩

theorem Alike.initializeAll (target : TransactionId) (waiting : List Waiting)
    {blockage : Blockage} (alike : engine.Alike create other) :
    EndAlike (SameResult (Alike create)) (engine.initializeAll target blockage waiting)
      (other.initializeAll target blockage waiting) := by
  induction waiting generalizing engine other blockage with
  | nil => exact .done ⟨rfl, alike⟩
  | cons next rest inductionHypothesis =>
    unfold Engine.initializeAll
    have initializers : other.machine.initializersOf next.module =
        engine.machine.initializersOf next.module := by rw [alike.machine]
    dsimp only
    rw [initializers]
    obtain ⟨names, searched⟩ := alike.missingNames
      ((engine.machine.initializersOf next.module).map Machine.InitializerEntry.address)
    rcases search : engine.missingNames
      ((engine.machine.initializersOf next.module).map Machine.InitializerEntry.address) with
      ⟨missing, between⟩
    rcases otherSearch : other.missingNames
      ((engine.machine.initializersOf next.module).map Machine.InitializerEntry.address) with
      ⟨otherMissing, otherBetween⟩
    rw [search, otherSearch] at names searched
    obtain rfl : otherMissing = missing := names
    dsimp only
    split
    · exact inductionHypothesis searched
    · have ended := (searched.mark next.id).runInitializers next.id
        (engine.machine.initializersOf next.module)
      unfold Engine.mark at ended
      rcases ended.results with
        ⟨breakdown, ran, otherRan⟩ | ⟨fault, after, otherAfter, ran, otherRan, still⟩
      · rw [ran, otherRan]
        exact .broken breakdown
      · rw [ran, otherRan]
        cases fault with
        | none => exact inductionHypothesis still
        | some fault =>
          dsimp only
          split
          · exact .done ⟨rfl, still⟩
          · exact inductionHypothesis still

theorem Alike.runEntry (alike : engine.Alike create other) (id : TransactionId)
    (origin : Option DeclarationId) (entry : String) :
    EndAlike (SameResult (Alike create)) (engine.runEntry id origin entry)
      (other.runEntry id origin entry) := by
  unfold Engine.runEntry
  rw [alike.machine]
  cases engine.machine.resolve? entry with
  | none => exact .done ⟨rfl, alike⟩
  | some address =>
    obtain ⟨names, searched⟩ := alike.missingNames [address]
    rcases search : engine.missingNames [address] with ⟨missing, between⟩
    rcases otherSearch : other.missingNames [address] with ⟨otherMissing, otherBetween⟩
    rw [search, otherSearch] at names searched
    obtain rfl : otherMissing = missing := names
    simp only [search, otherSearch]
    split
    · rcases (searched.runFor (.entry entry) id origin address []).results with
        ⟨breakdown, ran, otherRan⟩ | ⟨result, after, otherAfter, ran, otherRan, still⟩
      · rw [ran, otherRan]
        exact .broken breakdown
      · rw [ran, otherRan]
        cases result <;> exact .done ⟨rfl, still⟩
    · exact .done ⟨rfl, searched⟩

end Engine

end IncrementalC
