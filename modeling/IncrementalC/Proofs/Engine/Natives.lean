import IncrementalC.Proofs.Engine.AtExit
import IncrementalC.Proofs.Library.Holding

/-!
Contract: an engine provides native functions as the history of its requests says.

Owns: serving a request and a history of them; that requests alone never break an engine
down; and that the functions, the open handles and the questions to the lazy creator are
those of the history.

Does not own: which function a history gives to a name, or requests that running code makes.
-/

namespace IncrementalC

open NativeHistory

/-- The names for which the lazy creator was asked, latest first. -/
def Trace.requestedNames (trace : Trace) : List String :=
  trace.filterMap fun
    | .functionRequested name => some name
    | _ => none

namespace Engine

/-- Serves a request. -/
def serve (engine : Engine) : NativeRequest → Except Breakdown Engine
  | .addFunction name function => .ok (engine.addFunction name function)
  | .provideLibrary name library => .ok (engine.provideLibrary name library)
  | .loadLibrary files name permanent searchPaths =>
    .ok (engine.loadLibrary files name permanent searchPaths).2
  | .unloadLibrary name => (engine.unloadLibrary name).map Prod.snd
  | .setCreator creator => .ok (engine.setCreator creator)
  | .resolve name => .ok (engine.resolvesNatively name).2

/-- A new engine on a catalog in memory, once a history of requests was served. -/
def serveAll (limits : Limits) (catalog : Keyed Library) : NativeHistory → Except Breakdown Engine
  | [] => .ok (.new limits (.catalog catalog))
  | request :: earlier =>
    match serveAll limits catalog earlier with
    | .error breakdown => .error breakdown
    | .ok engine => engine.serve request

/-- The engine provides functions as the history says. -/
structure ProvidesNatives (catalog : Keyed Library) (history : NativeHistory) (engine : Engine) :
    Prop where
  /-- A name resolves to the function that the history gives it. -/
  resolves : ∀ name, (engine.host.resolver.resolve name engine.host.trace).1 =
    function? catalog name history
  /-- Resolving a name asks the lazy creator when the history says so. -/
  asks : ∀ name, (engine.host.resolver.resolve name engine.host.trace).2.2 =
    if NativeHistory.Asks catalog name history then .functionRequested name :: engine.host.trace
    else engine.host.trace
  /-- The creator was asked for nothing else. -/
  asked : engine.host.trace.requestedNames = asked catalog history
  /-- The libraries that are open are those of the history, in the order of opening. -/
  libraries : engine.host.resolver.libraries.map (fun entry => (entry.1, entry.2.permanent)) =
    (opened catalog history).map fun library => (library.name, library.permanent)
  /-- The open handles are those of the open libraries. -/
  handles : engine.host.resolver.loader.loaded.map LoadedLibrary.handle =
    engine.host.resolver.libraries.map fun entry => entry.2.handle
  /-- Each library has a handle of its own. -/
  apart : (engine.host.resolver.loader.loaded.map LoadedLibrary.handle).Nodup

/-! ## Serving -/

/-- An engine in step with the history: its tables hold what the history says, and it runs
no code when a library is closed. -/
structure InStep (catalog : Keyed Library) (history : NativeHistory) (engine : Engine) :
    Prop where
  resolver : ∃ held, engine.host.resolver.Follows catalog history held
  asked : engine.host.trace.requestedNames = NativeHistory.asked catalog history
  /-- Only destructors wait for a library to be closed. -/
  native : ∀ action ∈ engine.host.atExit, ∃ destructor, action.callback = .native destructor

/-- Destructors run without fail, and change nothing but the trace. -/
theorem runAtExit_of_native {engine : Engine} {actions : List AtExitAction}
    (native : ∀ action ∈ actions, ∃ destructor, action.callback = .native destructor) :
    ∃ trace, engine.runAtExit actions = .ok { engine with host.trace := trace } ∧
      trace.requestedNames = engine.host.trace.requestedNames := by
  induction actions generalizing engine with
  | nil => exact ⟨engine.host.trace, rfl, rfl⟩
  | cons action rest inductionHypothesis =>
    obtain ⟨first, others⟩ := List.forall_mem_cons.mp native
    obtain ⟨destructor, callback⟩ := first
    obtain ⟨trace, ran, asked⟩ := @inductionHypothesis
      { engine with host.trace := destructor.run engine.host.trace } others
    refine ⟨trace, ?_, asked⟩
    unfold runAtExit
    rw [callback]
    exact ran

theorem runOwned_of_native {engine : Engine} (owner : AtExitOwner)
    (native : ∀ action ∈ engine.host.atExit, ∃ destructor, action.callback = .native destructor) :
    ∃ trace, engine.runOwned owner =
        .ok ((engine.host.atExit.takeOwned owner).1.length, { engine with
          host.atExit := (engine.host.atExit.takeOwned owner).2, host.trace := trace }) ∧
      trace.requestedNames = engine.host.trace.requestedNames := by
  obtain ⟨trace, ran, asked⟩ := @runAtExit_of_native
    { engine with host.atExit := (engine.host.atExit.takeOwned owner).2 }
    (engine.host.atExit.takeOwned owner).1
    fun action member => native action (List.mem_of_mem_filter member)
  refine ⟨trace, ?_, asked⟩
  unfold runOwned
  dsimp only
  rw [ran]

namespace InStep

variable {catalog : Keyed Library} {history : NativeHistory} {engine : Engine}

theorem new (limits : Limits) (catalog : Keyed Library) :
    (Engine.new limits (.catalog catalog)).InStep catalog [] :=
  ⟨⟨[], .new catalog⟩, rfl, nofun⟩

theorem loadLibrary (follows : engine.InStep catalog history) (files : Files.FileTree)
    (name : String) (permanent : Bool) (searchPaths : List String) :
    (engine.loadLibrary files name permanent searchPaths).2.InStep catalog
      (.loadLibrary files name permanent searchPaths :: history) := by
  obtain ⟨held, resolver⟩ := follows.resolver
  obtain ⟨libraries, source, same⟩ := resolver.offered
  have kept (reason : offered? catalog name history = none ∨
      (engine.host.resolver.findLibrary? name).isSome) :
      engine.InStep catalog (.loadLibrary files name permanent searchPaths :: history) :=
    ⟨⟨held, resolver.loadLibrary_of_kept reason files permanent searchPaths⟩, follows.asked,
      follows.native⟩
  have located : engine.host.resolver.loader.locate? files name searchPaths =
      (offered? catalog name history).map fun _ => name := by
    unfold Loader.locate?
    rw [source]
    exact congrArg (Option.map fun _ => name) (same name)
  unfold Engine.loadLibrary
  rw [located]
  cases offered : offered? catalog name history with
  | none => exact kept (.inl offered)
  | some library =>
    dsimp only [Option.map_some]
    split
    · next isOpen => exact kept (.inr isOpen)
    · next unopened =>
      obtain ⟨handle, opened, heldNow, opens, followsNow⟩ := resolver.openLibrary offered
        (Option.not_isSome_iff_eq_none.mp unopened) files permanent searchPaths
      rw [opens]
      refine ⟨⟨heldNow, followsNow⟩, follows.asked, fun action member => ?_⟩
      rw [registerDestructors_atExit] at member
      rcases List.mem_append.mp member with new | old
      · obtain ⟨destructor, -, rfl⟩ := List.mem_map.mp (List.mem_reverse.mp new)
        exact ⟨destructor, rfl⟩
      · exact follows.native action old

theorem unloadLibrary (follows : engine.InStep catalog history) (name : String) :
    ∃ result after, engine.unloadLibrary name = .ok (result, after) ∧
      after.InStep catalog (.unloadLibrary name :: history) := by
  obtain ⟨held, resolver⟩ := follows.resolver
  have kept (reason : ∀ canonical library,
      engine.host.resolver.findLibrary? name = some (canonical, library) →
        library.permanent = true) :
      engine.InStep catalog (.unloadLibrary name :: history) :=
    ⟨⟨held, resolver.unloadLibrary_of_kept reason⟩, follows.asked, follows.native⟩
  unfold Engine.unloadLibrary
  cases found : engine.host.resolver.findLibrary? name with
  | none => exact ⟨_, _, rfl, kept fun canonical library isFound => by simp [found] at isFound⟩
  | some entry =>
    obtain ⟨canonical, library⟩ := entry
    cases permanent : library.permanent with
    | true =>
      refine ⟨_, _, if_pos permanent, kept fun other otherLibrary isFound => ?_⟩
      rw [found] at isFound
      obtain ⟨-, rfl⟩ := Prod.mk.inj (Option.some.inj isFound)
      exact permanent
    | false =>
      obtain ⟨trace, ran, asked⟩ := runOwned_of_native (.library canonical) follows.native
      obtain ⟨heldNow, followsNow⟩ := resolver.closeLibrary found permanent
      let host : HostState :=
        ⟨(engine.host.resolver.closeLibrary canonical).2,
          (engine.host.atExit.takeOwned (.library canonical)).2, trace⟩
      refine ⟨.unloaded, { engine with host }, ?_, ⟨heldNow, followsNow⟩,
        asked.trans follows.asked,
        fun action member => follows.native action (List.mem_of_mem_filter member)⟩
      simp only [permanent, ran]
      rfl

/-- A request is served, and the tables stay in step with the history. -/
theorem serve (follows : engine.InStep catalog history) (request : NativeRequest) :
    ∃ after, engine.serve request = .ok after ∧ after.InStep catalog (request :: history) := by
  obtain ⟨held, resolver⟩ := follows.resolver
  cases request with
  | addFunction name function =>
    exact ⟨_, rfl, ⟨held, resolver.addFunction name function⟩, follows.asked, follows.native⟩
  | provideLibrary name library =>
    exact ⟨_, rfl, ⟨held, resolver.provideLibrary name library⟩, follows.asked, follows.native⟩
  | loadLibrary files name permanent searchPaths =>
    exact ⟨_, rfl, follows.loadLibrary files name permanent searchPaths⟩
  | unloadLibrary name =>
    obtain ⟨result, after, ran, followsNow⟩ := follows.unloadLibrary name
    refine ⟨after, ?_, followsNow⟩
    rw [Engine.serve, ran]
    rfl
  | setCreator creator =>
    exact ⟨_, rfl, ⟨held, resolver.setCreator creator⟩, follows.asked, follows.native⟩
  | resolve name =>
    refine ⟨_, rfl, ⟨held, resolver.resolve name engine.host.trace⟩, ?_, follows.native⟩
    show Trace.requestedNames (engine.host.resolver.resolve name engine.host.trace).2.2 = _
    rw [resolver.resolve_asks, NativeHistory.asked, ← follows.asked]
    split <;> rfl

theorem provides (follows : engine.InStep catalog history) : engine.ProvidesNatives catalog history := by
  obtain ⟨held, resolver⟩ := follows.resolver
  refine ⟨fun name => ?_, fun name => resolver.resolve_asks name _, follows.asked, ?_, ?_, ?_⟩
  · rw [Resolver.resolve_fst, resolver.native?]
  · rw [resolver.holds.libraries, ← resolver.opened, List.map_map, List.map_map]
    rfl
  · rw [resolver.holds.handles, resolver.holds.libraries, List.map_map]
    rfl
  · rw [resolver.holds.handles]
    exact resolver.holds.apart

end InStep

theorem serveAll_inStep (limits : Limits) (catalog : Keyed Library) (history : NativeHistory) :
    ∃ engine, serveAll limits catalog history = .ok engine ∧ engine.InStep catalog history := by
  induction history with
  | nil => exact ⟨_, rfl, .new limits catalog⟩
  | cons request earlier inductionHypothesis =>
    obtain ⟨engine, served, follows⟩ := inductionHypothesis
    obtain ⟨after, serves, followsNow⟩ := follows.serve request
    refine ⟨after, ?_, followsNow⟩
    unfold serveAll
    rw [served]
    exact serves

/-- Every history of requests is served to its end, and then names resolve as the history
says: to the function added last, else to the export of the earliest open library, else to
what the lazy creator first supplied, else to what the current creator supplies. The creator
is asked only for what nothing else provides, and whatever is asked later, never again for
what it has supplied. -/
theorem native_resolution_follows_history (limits : Limits) (catalog : Keyed Library)
    (history : NativeHistory) :
    ∃ engine, serveAll limits catalog history = .ok engine ∧ engine.ProvidesNatives catalog history ∧
      ∀ name function, supplied? catalog name history = some function →
        ∀ later, supplied? catalog name (later ++ history) = some function ∧
          ∃ after, serveAll limits catalog (later ++ history) = .ok after ∧
            after.host.trace.requestedNames.count name =
              engine.host.trace.requestedNames.count name := by
  obtain ⟨engine, served, follows⟩ := serveAll_inStep limits catalog history
  refine ⟨engine, served, follows.provides, fun name function supplied later => ?_⟩
  obtain ⟨after, servedLater, followsLater⟩ := serveAll_inStep limits catalog (later ++ history)
  refine ⟨supplied?_append supplied later, after, servedLater, ?_⟩
  rw [followsLater.asked, follows.asked]
  exact count_asked_append supplied later

/-- What the creator supplied loses to a library that is opened later, and wins again once
that is closed. -/
example (own supplied : NativeFunction) (files : Files.FileTree) :
    let catalog : Keyed Library := [("libm", ⟨[("f", own)], []⟩)]
    let asked : NativeHistory := [.resolve "f", .setCreator fun _ => some supplied]
    let loaded := .loadLibrary files "libm" false [] :: asked
    function? catalog "f" loaded = some own ∧
      function? catalog "f" (.unloadLibrary "libm" :: loaded) = some supplied :=
  ⟨rfl, rfl⟩

end Engine

end IncrementalC
